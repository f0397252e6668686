/-!
The version of the library.
-/

namespace CacheFacade

def version : String := "0.3.0"

end CacheFacade
