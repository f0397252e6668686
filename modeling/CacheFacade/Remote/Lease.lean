import CacheFacade.Remote.Plan

/-!
The lease of a lock that was taken: the replicas that carry its token. It is renewed from time to
time, and ends when too few replicas agree or when the lock is given back. Its end is signalled
before the replicas are let go.
-/

namespace CacheFacade
namespace Remote

/-- The line about a replica that was not let go. -/
def unlockFailure? (replica : String) (o : Outcome) : Option Line :=
  match o.read (Answer.readInteger .i64) with
  | .ok _ => none
  | .error f => some (.warning s!"Redis UNLOCK replica {replica} failed: {f.message}")

/-- Removes the token from replicas that carry it. -/
def letGo (replicas : List String) (token : String) : Plan Unit := do
  let outcomes ← Plan.askAll (replicas.map (.release · token))
  Plan.logLines ((replicas.zip outcomes).filterMap fun e => unlockFailure? e.1 e.2)

structure Lease where
  /-- The key that is locked. -/
  name : String
  token : String
  /-- The replicas that were written when the lock was taken. -/
  held : List String
  majority : Nat
  validity : Span
deriving Repr, DecidableEq

/-- What happens to a lease. -/
inductive Prompt where
  /-- The time for a renewal has come. -/
  | due
  /-- The lock is given back. -/
  | stop
deriving Repr, DecidableEq

namespace Lease

/-- The time between renewals: half of the validity, but at least a millisecond. -/
def period (l : Lease) : Span := ⟨max l.validity.half.nanos Span.perMilli⟩

/-- A replica agrees by the answer one. -/
def agrees (o : Outcome) : Bool :=
  match o.read (Answer.readInteger .i64) with
  | .ok n => n = 1
  | .error _ => false

/-- Extends the lease on every replica and tells whether enough of them agreed. -/
def renew (l : Lease) : Plan Bool := do
  let outcomes ← Plan.askAll (l.held.map (.extend · l.token (milliseconds l.validity)))
  let extended := outcomes.countP agrees
  if extended < l.majority then
    Plan.logLine (.warning
      s!"Redis LOCK {l.name} lost: lease extended on {extended}/{l.held.length} replicas")
    return false
  else
    Plan.logLine (.done s!"Redis LOCK {l.name} extended")
    return true

/-- Ends the lease: the signal comes first. -/
def finish (l : Lease) : Plan Unit := do
  Plan.cancel l.token (pure ())
  letGo l.held l.token
  Plan.logLine (.done s!"Redis UNLOCK {l.name}")

/-- What is done when something happens to a lease, and whether it goes on. -/
def react (l : Lease) : Prompt → Plan Bool
  | .stop => do
    l.finish
    return false
  | .due => do
    if ← l.renew then return true
    else
      l.finish
      return false

end Lease
end Remote
end CacheFacade
