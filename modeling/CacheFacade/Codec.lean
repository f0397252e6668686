import CacheFacade.Compact.Reader
import CacheFacade.Compact.Writer
import CacheFacade.Log
import CacheFacade.Message.Reader
import CacheFacade.Message.Writer
import CacheFacade.Plain.Reader
import CacheFacade.Plain.Writer

/-!
Codecs: how the values of one type are turned into bytes and back. A codec is chosen once, when a
cache is opened. A cache on a server knows no more of its codec than a serializer tells.
-/

namespace CacheFacade

/-- Why a value was not written, with the lines that were logged about it. -/
structure Rejection where
  text : String
  lines : List Line

/-- Whatever turns values into bytes and bytes into values. -/
structure Serializer where
  /-- The name in log lines. -/
  name : String
  encode : Val → Except Rejection Bytes
  /-- A value, or what is wrong with the bytes. -/
  decode : Bytes → Except String Val

/-- The strategies for described types. -/
inductive Strategy where
  | plain
  | document
  | compact
deriving Repr, DecidableEq

inductive Codec where
  | described (s : Strategy) (t : Ty)
  | message (t : Message.MessageType)

namespace Strategy

def name : Strategy → String
  | plain => "default"
  | document => "json"
  | compact => "postcard"

end Strategy

namespace Codec

inductive WriteFault where
  | document (f : Json.WriteFault)
  | compact (f : Compact.WriteFault)
deriving Repr, DecidableEq

def WriteFault.message : WriteFault → String
  | document f => f.message
  | compact f => f.message

inductive ReadFault where
  | plain (f : Plain.Fault)
  | document (e : Json.Error)
  | compact (f : Compact.Fault)
  | numbered (f : Message.Fault)
deriving Repr, DecidableEq

def ReadFault.message : ReadFault → String
  | plain f => f.message
  | document e => e.message
  | compact f => f.message
  | numbered f => f.message

def name : Codec → String
  | described s _ => s.name
  | message _ => "protobuf"

def encode : Codec → Val → Except WriteFault Bytes
  | described .plain t, v => (Plain.write t v).mapError .document
  | described .document t, v => (Json.write t v).mapError .document
  | described .compact t, v => (Compact.write t v).mapError .compact
  | message t, v => .ok (Message.write t v)

def decode : Codec → Bytes → Except ReadFault Val
  | described .plain t, bs => (Plain.read t bs).mapError .plain
  | described .document t, bs => (Json.read t bs).mapError .document
  | described .compact t, bs => (Compact.read t bs).mapError .compact
  | message t, bs => (Message.read t bs).mapError .numbered

/-- How a log line calls the codec. -/
def title : Codec → String
  | described .plain _ => "Default"
  | described .document _ => "JSON"
  | described .compact _ => "Postcard"
  | message _ => "Protobuf"

/-- The line that is logged when a value cannot be written. -/
def failureLine (c : Codec) (f : WriteFault) : Line :=
  ⟨.error, s!"{c.title} serialization failed: {f.message}"⟩

def serializer (c : Codec) : Serializer where
  name := c.name
  encode v := (c.encode v).mapError fun f => ⟨f.message, [c.failureLine f]⟩
  decode bs := (c.decode bs).mapError (·.message)

end Codec
end CacheFacade
