import CacheFacade.Log
import CacheFacade.Remote.Trouble
import CacheFacade.Span

/-!
One round of taking a lock: what each of its replicas answered, and what follows from that. A round
takes the lock if enough replicas were written and their lifetime has not passed meanwhile.
-/

namespace CacheFacade
namespace Remote

/-- What became of one replica. -/
inductive Mark where
  | taken
  /-- The replica holds the token of another lock. -/
  | contended
  | failed (f : Fault)
deriving Repr, DecidableEq

namespace Mark

/-- A server confirms what it wrote; a missing answer means that the key held something. -/
def ofOutcome (o : Outcome) : Mark :=
  match o.read (Answer.readOptional Answer.readText) with
  | .ok (some _) => taken
  | .ok none => contended
  | .error f => failed f

def fault? : Mark → Option Fault
  | failed f => some f
  | _ => none

end Mark

inductive Verdict where
  | acquired (held : List String)
  | busy
  | failed (f : Fault)
deriving Repr, DecidableEq

/-- The replicas of a lock in their order, each with what became of it. -/
abbrev Round := List (String × Mark)

namespace Round

def held (r : Round) : List String := (r.filter fun e => e.2 = .taken).map (·.1)

def isContended (r : Round) : Bool := r.any fun e => e.2 = .contended

def faults (r : Round) : List Fault := r.filterMap fun e => e.2.fault?

/-- What a round comes to after a time. A round that nobody contends for and that took no replica
shows its last fault. -/
def verdict (r : Round) (majority : Nat) (validity : Span) (elapsed : Nat) : Verdict :=
  if majority ≤ r.held.length ∧ elapsed < validity.nanos then .acquired r.held
  else
    match r.faults.getLast? with
    | some f => if !r.isContended && r.held.isEmpty then .failed f else .busy
    | none => .busy

def failureLine? (e : String × Mark) : Option Line :=
  e.2.fault?.map fun f => .warning s!"Redis LOCK replica {e.1} failed: {f.message}"

/-- The lines about replicas that failed. -/
def failureLines (r : Round) : List Line := r.filterMap failureLine?

end Round
end Remote
end CacheFacade
