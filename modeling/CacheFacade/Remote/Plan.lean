import CacheFacade.Log
import CacheFacade.Remote.Command
import CacheFacade.Remote.Trouble

/-!
Plans: what is done with a server, one step after another, where later steps depend on what became
of earlier commands. A plan says nothing about the server; a link carries it out and records the
events.
-/

namespace CacheFacade
namespace Remote

inductive Plan (α : Type) where
  | done (a : α)
  | log (l : Line) (next : Plan α)
  /-- Gives the signal that the lock with a token is no longer held. -/
  | cancel (token : String) (next : Plan α)
  /-- Sends commands at the same time and waits for what becomes of all of them. -/
  | ask (commands : List Command) (next : List Outcome → Plan α)
  | clock (next : Nat → Plan α)
  | pause (d : Span) (next : Plan α)
  /-- Takes a token that no lock had before. -/
  | draw (next : String → Plan α)

namespace Plan

def bind {α β : Type} : Plan α → (α → Plan β) → Plan β
  | done a, f => f a
  | log l next, f => log l (next.bind f)
  | cancel token next, f => cancel token (next.bind f)
  | ask commands next, f => ask commands fun os => (next os).bind f
  | clock next, f => clock fun now => (next now).bind f
  | pause d next, f => pause d (next.bind f)
  | draw next, f => draw fun token => (next token).bind f

instance : Monad Plan where
  pure := done
  bind := bind

def logLine (l : Line) : Plan Unit := log l (done ())

def logLines : List Line → Plan Unit
  | [] => done ()
  | l :: ls => log l (logLines ls)

def askAll (commands : List Command) : Plan (List Outcome) := ask commands done

/-- The outcome of a command that was sent alone. -/
def only : List Outcome → Outcome
  | [o] => o
  | _ => .error (.dropped "")

/-- Sends one command and reads its answer. -/
def query {α : Type} (c : Command) (reading : Answer.Reading α) : Plan (Except Fault α) :=
  ask [c] fun os => done ((only os).read reading)

end Plan

/-- Carries commands to a server. Every command of a batch has an outcome. -/
structure Link (σ : Type) where
  exchange : List Command → σ → List Outcome × σ
  now : σ → Nat
  pass : Span → σ → σ
  draw : σ → String × σ
  length_exchange : ∀ commands s, (exchange commands s).1.length = commands.length

inductive Event where
  | logged (l : Line)
  | sent (c : Command)
  | cancelled (token : String)
deriving Repr, DecidableEq

def Event.line? : Event → Option Line
  | logged l => some l
  | _ => none

def Event.command? : Event → Option Command
  | sent c => some c
  | _ => none

def Event.token? : Event → Option String
  | cancelled token => some token
  | _ => none

/-- What came of a plan: its value, the state after it, and the events in their order. -/
structure Run (σ α : Type) where
  value : α
  state : σ
  events : List Event

namespace Run

def lines {σ α : Type} (r : Run σ α) : List Line := r.events.filterMap Event.line?

def commands {σ α : Type} (r : Run σ α) : List Command := r.events.filterMap Event.command?

def map {σ τ α β : Type} (f : α → β) (g : σ → τ) (r : Run σ α) : Run τ β :=
  ⟨f r.value, g r.state, r.events⟩

def after {σ α : Type} (before : List Event) (r : Run σ α) : Run σ α :=
  { r with events := before ++ r.events }

end Run

/-- The commands of a batch that were sent. -/
def sentOf : List Command → List Outcome → List Event
  | c :: commands, o :: os => if o.isSent then .sent c :: sentOf commands os else sentOf commands os
  | _, _ => []

namespace Plan

def run {σ α : Type} (link : Link σ) : Plan α → σ → Run σ α
  | done a, s => ⟨a, s, []⟩
  | log l next, s => (next.run link s).after [.logged l]
  | cancel token next, s => (next.run link s).after [.cancelled token]
  | ask commands next, s =>
    let (os, s) := link.exchange commands s
    ((next os).run link s).after (sentOf commands os)
  | clock next, s => (next (link.now s)).run link s
  | pause d next, s => next.run link (link.pass d s)
  | draw next, s =>
    let (token, s) := link.draw s
    (next token).run link s

end Plan
end Remote
end CacheFacade
