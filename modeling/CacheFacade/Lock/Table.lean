import CacheFacade.Action
import CacheFacade.Clock

/-!
The locks of one process. A key has at most one holder, known by a token and a deadline; a holder
past its deadline may be replaced. The deadline is reckoned before the holders are looked at, and a
clock that does not come to it ends the try. Each token has a signal that is given once the lock is
no longer held.
-/

namespace CacheFacade
namespace Lock

structure Holder where
  key : String
  token : Nat
  deadline : Nat
deriving Repr, DecidableEq

structure Table where
  holders : List Holder
  nextToken : Nat
  /-- The tokens whose signal was given. -/
  signalled : List Nat
deriving Repr, DecidableEq

/-- A lock that was taken. -/
structure Guard where
  key : String
  token : Nat
deriving Repr, DecidableEq

namespace Table

def empty : Table := ⟨[], 1, []⟩

def holder? (t : Table) (key : String) : Option Holder := t.holders.find? fun h => h.key == key

def isCancelled (t : Table) (token : Nat) : Bool := t.signalled.contains token

/-- Makes `h` the holder of its key; the one before it is signalled. -/
def install (t : Table) (h : Holder) : Table where
  holders := h :: t.holders.filter fun x => x.key != h.key
  nextToken := t.nextToken
  signalled := ((t.holders.filter fun x => x.key == h.key).map (·.token)) ++ t.signalled

/-- Takes the lock if it is free or its holder is past the deadline. -/
def take (t : Table) (key : String) (now : Nat) (validity : Span) : Step Table Guard :=
  let token := t.nextToken
  let t := { t with nextToken := token + 1 }
  match Clock.after? now validity with
  | none => ⟨.error (.panicked Clock.overflow), t, []⟩
  | some deadline =>
    let taken := t.install ⟨key, token, deadline⟩
    match t.holder? key with
    | none => ⟨.ok ⟨key, token⟩, taken, [.done s!"Local LOCK {key}"]⟩
    | some h =>
      if now < h.deadline then ⟨.error .notLocked, t, [.done s!"Local LOCK {key} -> BUSY"]⟩
      else ⟨.ok ⟨key, token⟩, taken, [.done s!"Local LOCK {key} -> TAKEN OVER (expired holder)"]⟩

/-- Gives a lock back, unless someone else holds it by now. -/
def release (t : Table) (g : Guard) : Step Table Unit :=
  match t.holder? g.key with
  | none => ⟨.ok (), t, []⟩
  | some h =>
    if h.token = g.token then
      ⟨.ok (), { t with
        holders := t.holders.filter fun x => x.key != g.key
        signalled := g.token :: t.signalled }, [.done s!"Local UNLOCK {g.key}"]⟩
    else ⟨.ok (), t, []⟩

/-- Gives every signal and frees every lock. -/
def clear (t : Table) : Table :=
  { t with holders := [], signalled := t.holders.map (·.token) ++ t.signalled }

end Table
end Lock
end CacheFacade
