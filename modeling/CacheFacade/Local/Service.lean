import CacheFacade.Local.Cache

/-!
A local cache with the handle that tears it down. The first release closes the cache; later ones do
nothing.
-/

namespace CacheFacade
namespace Local

structure Service where
  cache : Cache
  released : Bool

namespace Service

def readyLine (c : Config) : Line :=
  .ready s!"Cache {c.name} ready ({c.mode.name} mode, serializer: {c.codec.name})"

/-- Opens a cache whose configuration was found valid. -/
def ofConfig (c : Config) : Service := ⟨.ofConfig c, false⟩

def openingLines (c : Config) : List Line := [Cache.openingLine c, readyLine c]

def release (s : Service) : Step Service Unit :=
  if s.released then ⟨.ok (), s, []⟩
  else s.cache.close.map id fun cache => ⟨cache, true⟩

end Service
end Local
end CacheFacade
