import CacheFacade.Text.Quoted

/-!
The handles that callers hold, in the form for diagnosis: a cache with its engine, a lock that was
taken, and the handle that gives a cache up.
-/

namespace CacheFacade
namespace Handle

def record (name field value : String) : String :=
  name ++ " \x7b " ++ field ++ ": " ++ value ++ " \x7d"

def describeService (isLocal : Bool) : String :=
  record "CacheService" "engine" (Quoted.text (if isLocal then "local" else "remote"))

def describeRelease (released : Bool) : String := record "Release" "released" (toString released)

def describeGuard (key : String) (lost : Bool) : String :=
  record "LockGuard" "key" (Quoted.text key ++ ", lost: " ++ toString lost)

end Handle
end CacheFacade
