import CacheFacade.Config
import CacheFacade.Key
import CacheFacade.Remote.Lease
import CacheFacade.Remote.Round

/-!
Locks across processes. The token of a lock is written to an odd number of replica keys, each of
which is written only if it holds nothing; whoever writes most of them holds the lock.
-/

namespace CacheFacade
namespace Remote

structure Quorum where
  keys : KeySpace
  majority : Nat
  validity : Span
deriving Repr, DecidableEq

namespace Quorum

/-- The time between two rounds of waiting for a lock. -/
def retryInterval : Span := .ofMillis 50

def ofConfig (c : Config) : Quorum := ⟨⟨c.name⟩, max 1 c.mode.majority, c.leaseOf⟩

def size (q : Quorum) : Nat := 2 * q.majority - 1

def replicas (q : Quorum) (key : String) : List String :=
  (List.range q.size).map (q.keys.replicaKey key)

/-- One round for a token. What it took is let go unless it takes the lock. -/
def round (q : Quorum) (key token : String) : Plan Verdict := do
  let started ← Plan.clock pure
  let replicas := q.replicas key
  let outcomes ← Plan.askAll (replicas.map (.acquire · token (milliseconds q.validity)))
  let round : Round := replicas.zip (outcomes.map Mark.ofOutcome)
  Plan.logLines round.failureLines
  let now ← Plan.clock pure
  match round.verdict q.majority q.validity (now - started) with
  | .acquired held =>
    Plan.logLine (.done s!"Redis LOCK {q.keys.qualify key} ({held.length}/{q.size} replicas)")
    return .acquired held
  | other =>
    letGo round.held token
    return other

/-- Takes a lock without waiting. -/
def tryLock (q : Quorum) (key : String) : Plan (Except Fault Lease) := do
  let token ← Plan.draw pure
  match ← q.round key token with
  | .acquired held => return .ok ⟨q.keys.qualify key, token, held, q.majority, q.validity⟩
  | .busy =>
    Plan.logLine (.done s!"Redis LOCK {q.keys.qualify key} -> BUSY")
    return .error .notLocked
  | .failed f => return .error f

/-- Takes a lock, with a new round after each one that found it busy; a caller waits for so many
rounds at most. -/
def lock (q : Quorum) (key : String) : Nat → Plan (Except Fault Lease)
  | 0 => return .error .notLocked
  | rounds + 1 => do
    match ← q.tryLock key with
    | .error .notLocked =>
      Plan.pause retryInterval (pure ())
      q.lock key rounds
    | other => return other

end Quorum
end Remote
end CacheFacade
