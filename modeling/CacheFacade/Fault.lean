import CacheFacade.Text.Quoted

/-!
What a cache operation may fail with. A miss is no fault; contention for a lock is one that callers
are expected to tell apart from the others.
-/

namespace CacheFacade

inductive Fault where
  | serialization (text : String)
  | deserialization (text : String)
  | backend (text : String)
  | config (text : String)
  | notImplemented (text : String)
  | notLocked
  | wrongType (text : String)
  | other (text : String)
  /-- The call does not return: its thread ends with this text. -/
  | panicked (text : String)
deriving Repr, DecidableEq

namespace Fault

def isContention : Fault → Bool
  | notLocked => true
  | _ => false

def message : Fault → String
  | serialization text => "Serialization error: " ++ text
  | deserialization text => "Deserialization error: " ++ text
  | backend text => "Backend error: " ++ text
  | config text => "Config error: " ++ text
  | notImplemented text => "Not implemented: " ++ text
  | notLocked => "lock not acquired"
  | wrongType text => "Wrong type: " ++ text
  | other text => "Error: " ++ text
  | panicked text => text

/-- The name of the kind of a fault. -/
def kind : Fault → String
  | serialization _ => "SerializationError"
  | deserialization _ => "DeserializationError"
  | backend _ => "BackendError"
  | config _ => "ConfigError"
  | notImplemented _ => "NotImplemented"
  | notLocked => "NotLocked"
  | wrongType _ => "WrongType"
  | other _ => "Other"
  | panicked _ => "Panic"

def text? : Fault → Option String
  | serialization text | deserialization text | backend text | config text | notImplemented text
  | wrongType text | other text | panicked text => some text
  | notLocked => none

/-- The form for diagnosis: the kind, and the text in quotes. -/
def describe (f : Fault) : String :=
  match f.text? with
  | some text => s!"{f.kind}({Quoted.text text})"
  | none => f.kind

end Fault
end CacheFacade
