import CacheFacade.Fault
import CacheFacade.Remote.Answer
import CacheFacade.Text.Split

/-!
What may go wrong with a command: no connection is had, the connection is lost, the server refuses,
or the answer is not what was asked for. Refusals about the type of what a key holds are told apart
from the rest.
-/

namespace CacheFacade
namespace Remote

/-- Why a pool gives no connection. -/
inductive Unconnected where
  | closed
  | creation (reason : String)
deriving Repr, DecidableEq

def Unconnected.message : Unconnected → String
  | closed => "Pool has been closed"
  | creation reason => "Error occurred while creating a new object: " ++ reason

/-- A refusal by the server: a code, and what it says beyond it. -/
structure Refusal where
  code : String
  detail : Option String
deriving Repr, DecidableEq

namespace Refusal

def ofText (s : String) : Refusal :=
  match Split.first? [' '] s.toList with
  | some (code, detail) => ⟨String.ofList code, some (String.ofList detail)⟩
  | none => ⟨s, none⟩

/-- The kinds of refusal that have a name of their own. -/
def kinds : List (String × String) :=
  [("ERR", "ResponseError"), ("EXECABORT", "ExecAbortError"), ("LOADING", "BusyLoadingError"),
   ("NOSCRIPT", "NoScriptError"), ("MOVED", "Moved"), ("ASK", "Ask"), ("TRYAGAIN", "TryAgain"),
   ("CLUSTERDOWN", "ClusterDown"), ("CROSSSLOT", "CrossSlot"), ("MASTERDOWN", "MasterDown"),
   ("READONLY", "ReadOnly"), ("NOTBUSY", "NotBusy")]

def message (r : Refusal) : String :=
  match kinds.lookup r.code, r.detail with
  | some kind, some detail => s!"An error was signalled by the server - {kind}: {detail}"
  | some kind, none => s!"An error was signalled by the server- {kind}"
  | none, some detail => s!"{r.code}: {detail}"
  | none, none => s!"{r.code}: Unknown extension error encountered"

end Refusal

inductive Trouble where
  /-- The command was not sent. -/
  | unconnected (why : Unconnected)
  | refused (r : Refusal)
  /-- The connection was lost before an answer came. -/
  | dropped (reason : String)
deriving Repr, DecidableEq

namespace Trouble

/-- The fault for the word of a server: about the type of a value, or about the server. -/
def classify (code : Option String) (message : String) : Fault :=
  if code = some "WRONGTYPE" ∨ Split.holds "not an integer" message then .wrongType message
  else .backend ("Redis error: " ++ message)

def fault : Trouble → Fault
  | unconnected why => .backend ("Failed to get Redis connection: " ++ why.message)
  | refused r => classify (some r.code) r.message
  | dropped reason => classify none reason

def isUnsent : Trouble → Bool
  | unconnected _ => true
  | _ => false

end Trouble

/-- What becomes of a command. -/
abbrev Outcome := Except Trouble Answer

namespace Outcome

def isSent : Outcome → Bool
  | .ok _ => true
  | .error t => !t.isUnsent

/-- The answer, as a reading takes it. -/
def read {α : Type} (reading : Answer.Reading α) : Outcome → Except Fault α
  | .ok a => (reading a).mapError fun m => Trouble.classify none m.message
  | .error t => .error t.fault

end Outcome
end Remote
end CacheFacade
