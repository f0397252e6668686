import CacheFacade.Remote.Address
import CacheFacade.Remote.Plan

/-!
The pool of connections that all remote caches of a process share. The first cache opens it, for its
own address and size; a pool that was closed stays closed.
-/

namespace CacheFacade
namespace Remote

structure Pool where
  mode : Mode
  size : Nat
  /-- The connections that were made so far. -/
  connections : Nat
  isClosed : Bool
deriving Repr, DecidableEq

/-- A server as a pool finds it. -/
structure Server (σ : Type) where
  /-- Why no connection can be made, if none can. -/
  obstacle : σ → Option String
  answer : Command → σ → Outcome × σ
  now : σ → Nat
  pass : Span → σ → σ
  draw : σ → String × σ

namespace Server

variable {σ : Type}

def answerAll (server : Server σ) : List Command → σ → List Outcome × σ
  | [], s => ([], s)
  | c :: commands, s =>
    let (o, s) := server.answer c s
    let (os, s) := server.answerAll commands s
    (o :: os, s)

theorem length_answerAll (server : Server σ) (commands : List Command) (s : σ) :
    (server.answerAll commands s).1.length = commands.length := by
  induction commands generalizing s with
  | nil => rfl
  | cons c commands ih => simp only [answerAll, List.length_cons, ih]

end Server

namespace Pool

def ofConfig (mode : Mode) (size : Nat) : Pool := ⟨mode, size, 0, false⟩

def openingLine (p : Pool) (a : Address) : Line :=
  let nodes := a.nodes.length
  .ready s!"Redis {p.mode.name} connection initialized: {nodes} node(s) (pool size: {p.size})"

/-- Closes the pool; its connections go. -/
def close (p : Pool) : Pool := { p with connections := 0, isClosed := true }

def closingLine : Line := .warning "Shared Redis connection closed"

/-- Why a connection cannot be made; with a cluster, the first connections are made all together. -/
def creationReason (p : Pool) (reason : String) : String :=
  match p.mode with
  | .cluster => "Failed to create initial connections - IoError: " ++ reason
  | _ => reason

/-- Why the pool gives no connection, if it gives none. -/
def refusal? (p : Pool) (obstacle : Option String) : Option Unconnected :=
  if p.isClosed then some .closed else obstacle.map fun r => .creation (p.creationReason r)

/-- Commands that are sent at the same time take a connection each. -/
def serving (p : Pool) (commands : Nat) : Pool :=
  { p with connections := max p.connections (min p.size commands) }

variable {σ : Type}

def exchange (server : Server σ) (commands : List Command) (s : Pool × σ) :
    List Outcome × (Pool × σ) :=
  match s.1.refusal? (server.obstacle s.2) with
  | some why => (commands.map fun _ => .error (.unconnected why), s)
  | none =>
    let (os, server') := server.answerAll commands s.2
    (os, s.1.serving commands.length, server')

theorem length_exchange (server : Server σ) (commands : List Command) (s : Pool × σ) :
    (exchange server commands s).1.length = commands.length := by
  unfold exchange
  split
  · simp only [List.length_map]
  · exact server.length_answerAll commands s.2

/-- Carries commands to a server over the connections of a pool. -/
def link (server : Server σ) : Link (Pool × σ) where
  exchange := exchange server
  now s := server.now s.2
  pass d s := (s.1, server.pass d s.2)
  draw s := let (token, after) := server.draw s.2; (token, s.1, after)
  length_exchange := length_exchange server

end Pool
end Remote
end CacheFacade
