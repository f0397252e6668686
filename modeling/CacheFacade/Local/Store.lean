import CacheFacade.Span

/-!
A store that keeps what is used within a budget of cost. Entries stand in the order of their last
use; how often each key was asked for decides whether a new entry may displace an old one. An entry
is found until its deadline; past it, the entry still stands in its place, costs what it costs and
can be removed, until it is written over or the timer of the store turns.
-/

namespace CacheFacade
namespace Local

/-- What a write does to the lifetime of an entry. -/
inductive Expiry where
  /-- What is left of the lifetime stays. -/
  | keep
  | after (ttl : Span)
  | never
deriving Repr, DecidableEq

namespace Expiry

/-- A zero lifetime means that the entry does not expire. -/
def ofTtl : Option Span → Expiry
  | some ttl => if ttl.isZero then never else after ttl
  | none => never

def describe : Expiry → String
  | keep => "Keep"
  | after ttl => s!"After({ttl.text})"
  | never => "Never"

/-- The deadline after a write at `now`, for an entry that had the deadline `old`. -/
def deadline (now : Nat) (old : Option Nat) : Expiry → Option Nat
  | keep => old
  | after ttl => some (now + ttl.nanos)
  | never => none

end Expiry

structure Entry (α : Type) where
  key : String
  value : α
  cost : Nat
  deadline : Option Nat

def Entry.isLive {α : Type} (e : Entry α) (now : Nat) : Bool :=
  match e.deadline with
  | some d => now < d
  | none => true

/-- The entries, the one used longest ago first, and how often each key was asked for. -/
structure Store (α : Type) where
  budget : Nat
  entries : List (Entry α)
  asked : List (String × Nat)

namespace Store

variable {α : Type}

def empty (budget : Nat) : Store α := ⟨budget, [], []⟩

def totalCost : List (Entry α) → Nat
  | [] => 0
  | e :: entries => e.cost + totalCost entries

def used (s : Store α) : Nat := totalCost s.entries

def count (s : Store α) : Nat := s.entries.length

/-- What stands under a key, past its deadline or not. -/
def find? (s : Store α) (key : String) : Option (Entry α) := s.entries.find? fun e => e.key == key

/-- What a look-up finds under a key. -/
def live? (s : Store α) (key : String) (now : Nat) : Option (Entry α) :=
  s.entries.find? fun e => e.key == key && e.isLive now

def timesAsked (s : Store α) (key : String) : Nat := (s.asked.lookup key).getD 0

def ask (s : Store α) (key : String) : Store α :=
  { s with asked := (key, s.timesAsked key + 1) :: s.asked.filter fun a => a.1 != key }

def without (key : String) (entries : List (Entry α)) : List (Entry α) :=
  entries.filter fun e => e.key != key

/-- Drops entries, the one used longest ago first, until the rest fits the budget. -/
def fit (budget : Nat) : List (Entry α) → List (Entry α)
  | [] => []
  | e :: es => if totalCost (e :: es) ≤ budget then e :: es else fit budget es

/-- Looks a key up; an entry that is found counts as used and may get a new deadline. -/
def read (s : Store α) (key : String) (now : Nat) (touch : Option Span) : Option α × Store α :=
  let s := s.ask key
  match s.live? key now with
  | none => (none, s)
  | some e =>
    let deadline := match touch with
      | some d => some (now + d.nanos)
      | none => e.deadline
    (some e.value, { s with entries := without key s.entries ++ [{ e with deadline := deadline }] })

/-- Lets a new entry in if it fits, or if its key was asked for more often than the one used longest
ago, which then goes. -/
def letIn (s : Store α) (e : Entry α) : Store α :=
  if s.used + e.cost ≤ s.budget then { s with entries := s.entries ++ [e] }
  else
    match s.entries with
    | [] => s
    | oldest :: rest =>
      if s.timesAsked oldest.key < s.timesAsked e.key then
        { s with entries := fit s.budget (rest ++ [e]) }
      else s

/-- Writes over what stands under the key, or lets a new entry in. -/
def write (s : Store α) (key : String) (value : α) (cost now : Nat) (life : Expiry) : Store α :=
  let s := s.ask key
  match s.find? key with
  | none => s.letIn ⟨key, value, cost, life.deadline now none⟩
  | some old =>
    let e : Entry α := ⟨key, value, cost, life.deadline now old.deadline⟩
    { s with entries := fit s.budget (without key s.entries ++ [e]) }

/-- Removes what stands under a key, past its deadline or not. -/
def remove (s : Store α) (key : String) : Store α := { s with entries := without key s.entries }

def clear (s : Store α) : Store α := { s with entries := [] }

/-- Drops the entries whose deadline has come. -/
def purge (s : Store α) (now : Nat) : Store α :=
  { s with entries := s.entries.filter fun e => e.isLive now }

/-- The nanoseconds from one turn of the timer to the next. -/
def turn : Nat := Nat.pow 2 30

/-- Time passes, and the timer turns or does not. -/
def pass (s : Store α) (before now : Nat) : Store α :=
  if before / turn < now / turn then s.purge now else s

end Store
end Local
end CacheFacade
