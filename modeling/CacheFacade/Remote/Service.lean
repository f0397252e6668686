import CacheFacade.Remote.Cache
import CacheFacade.Remote.Session

/-!
A remote cache in use, with the handle that gives it up. All caches of a process share one pool,
which giving up a cache leaves open.
-/

namespace CacheFacade
namespace Remote

/-- Opens a cache over the shared pool, which is made if there is none yet. The server is not asked.
-/
def Cache.openOver (pool : Option Pool) (c : Config) : Step (Option Pool) Cache :=
  match c.validate with
  | .error f => ⟨.error f, pool, []⟩
  | .ok _ =>
    match Address.parse c.mode c.address with
    | (.error f, lines) => ⟨.error f, pool, lines⟩
    | (.ok a, lines) =>
      let made := Pool.ofConfig c.mode c.poolSize
      let opening := match pool with
        | some _ => []
        | none => [made.openingLine a]
      ⟨.ok (.ofConfig c), some (pool.getD made), lines ++ opening ++ [openingLine c]⟩

structure Service (σ : Type) where
  cache : Cache
  session : Session (Pool × σ)
  released : Bool

namespace Service

variable {σ : Type}

def start (cache : Cache) (pool : Pool) (world : σ) : Service σ :=
  ⟨cache, .start (pool, world), false⟩

def pool (s : Service σ) : Pool := s.session.world.1

/-- Asks for the sign of life that a cache is opened with. -/
def greet (c : Config) : Plan (Except Fault Unit) :=
  Engine.andThen Cache.isAlive fun alive =>
    if alive then
      .log (.ready s!"Cache {c.name} ready ({c.mode.name} mode, serializer: {c.codec.name})")
        (.done (.ok ()))
    else .done (.error (.backend s!"unexpected PING reply from {c.address}"))

def perform {α : Type} (server : Server σ) (p : Plan α) (s : Service σ) : Run (Service σ) α :=
  (s.session.perform (Pool.link server) p).map id fun session => { s with session := session }

def run (server : Server σ) (a : Action) (s : Service σ) : Run (Service σ) (Except Fault Reply) :=
  s.perform server (s.cache.plan a)

def takeLock (server : Server σ) (p : Plan (Except Fault Lease)) (s : Service σ) :
    Run (Service σ) (Except Fault Lease) :=
  (s.session.takeLock (Pool.link server) p).map id fun session => { s with session := session }

def tryLock (server : Server σ) (key : String) (s : Service σ) :
    Run (Service σ) (Except Fault Lease) :=
  s.takeLock server (s.cache.quorum.tryLock key)

/-- Waits for a lock, for so many rounds at most. -/
def lock (server : Server σ) (key : String) (rounds : Nat) (s : Service σ) :
    Run (Service σ) (Except Fault Lease) :=
  s.takeLock server (s.cache.quorum.lock key rounds)

def unlock (server : Server σ) (l : Lease) (s : Service σ) : Run (Service σ) Unit :=
  (s.session.giveBack (Pool.link server) l.token).map id fun session =>
    { s with session := session }

def sleep (server : Server σ) (d : Span) (s : Service σ) : Run (Service σ) Unit :=
  (s.session.sleep (Pool.link server) d).map id fun session => { s with session := session }

def isLost (l : Lease) (s : Service σ) : Bool := s.session.isCancelled l.token

/-- Closes the pool of the process; no command is sent after that. -/
def shutDown (s : Service σ) : Run (Service σ) Unit :=
  let (pool, world) := s.session.world
  ⟨(), { s with session := { s.session with world := (pool.close, world) } },
    [.logged Pool.closingLine]⟩

/-- Gives the cache up. Nothing is torn down, for others may use the pool. -/
def release (s : Service σ) : Service σ := { s with released := true }

end Service
end Remote
end CacheFacade
