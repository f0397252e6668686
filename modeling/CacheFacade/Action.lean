import CacheFacade.Fault
import CacheFacade.FieldTtl
import CacheFacade.Log
import CacheFacade.Schema.Value

/-!
The operations that every engine offers, and what they answer. Keys are the caller's; an engine puts
the name of its cache before them.
-/

namespace CacheFacade

inductive Action where
  | get (key : String)
  | set (key : String) (v : Val)
  | setFor (key : String) (v : Val) (ttl : Span)
  | delete (key : String)
  | deleteAll (keys : List String)
  | expire (key : String) (ttl : Span)
  | increment (key : String) (delta : Int)
  | decrement (key : String) (delta : Int)
  | fieldSet (key field : String) (v : Val)
  | fieldSetFor (key field : String) (v : Val) (ttl : Span)
  | fieldGet (key field : String)
  | fields (key : String)
  | fieldDelete (key : String) (names : List String)
  | fieldExpire (key field : String) (ttl : Span)
  | fieldTtl (key field : String)

inductive Reply where
  | done
  | found (v : Option Val)
  | count (n : Nat)
  | number (n : Int)
  | fields (entries : List (String × Val))
  | flag (b : Bool)
  | fieldTtl (t : FieldTtl)

/-- What an operation gives: its result, the state after it, and the lines it logged. -/
structure Step (σ α : Type) where
  result : Except Fault α
  state : σ
  log : List Line

namespace Step

def map {σ τ α β : Type} (f : α → β) (g : σ → τ) (s : Step σ α) : Step τ β :=
  ⟨s.result.map f, g s.state, s.log⟩

def logged {σ α : Type} (before : List Line) (s : Step σ α) : Step σ α :=
  { s with log := before ++ s.log }

end Step
end CacheFacade
