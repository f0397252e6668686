/-!
What an engine promises beyond storing values.
-/

namespace CacheFacade

structure Capabilities where
  /-- Counters lose no update of concurrent callers. -/
  atomicCounters : Bool
  /-- Each field of a hash has a lifetime of its own. -/
  fieldTtl : Bool
  /-- A new lifetime is given to a key in place. -/
  liveExpire : Bool
  /-- Locks exclude other processes. -/
  distributedLock : Bool
  /-- Taking a lock waits for its holder. -/
  blockingLock : Bool
deriving Repr, DecidableEq

namespace Capabilities

def inProcess : Capabilities := ⟨false, false, false, false, false⟩

def remote : Capabilities := ⟨true, true, true, true, true⟩

end Capabilities
end CacheFacade
