import CacheFacade.Schema.Value

/-!
Numbered messages: records whose fields are known by number, each written in one of a few ways on
the wire. A field at its default value is left out.
-/

namespace CacheFacade
namespace Message

inductive Wire where
  | varint
  | fixed64
  | delimited
  | groupStart
  | groupEnd
  | fixed32
deriving Repr, DecidableEq

namespace Wire

def code : Wire → Nat
  | varint => 0
  | fixed64 => 1
  | delimited => 2
  | groupStart => 3
  | groupEnd => 4
  | fixed32 => 5

def ofCode? : Nat → Option Wire
  | 0 => some varint
  | 1 => some fixed64
  | 2 => some delimited
  | 3 => some groupStart
  | 4 => some groupEnd
  | 5 => some fixed32
  | _ => none

def name : Wire → String
  | varint => "Varint"
  | fixed64 => "SixtyFourBit"
  | delimited => "LengthDelimited"
  | groupStart => "StartGroup"
  | groupEnd => "EndGroup"
  | fixed32 => "ThirtyTwoBit"

theorem ofCode?_code (w : Wire) : ofCode? w.code = some w := by cases w <;> rfl

end Wire

inductive Kind where
  | text
  | bytes
  | bool
  | int32
  | int64
  | uint64
  | sint64
  | double
  | fixed32
deriving Repr, DecidableEq

namespace Kind

def wire : Kind → Wire
  | text | bytes => .delimited
  | bool | int32 | int64 | uint64 | sint64 => .varint
  | double => .fixed64
  | fixed32 => .fixed32

def default : Kind → Val
  | text => .text ""
  | bytes => .bytes []
  | bool => .bool false
  | int32 | int64 | uint64 | sint64 | fixed32 => .int 0
  | double => .f64 0

/-- Both zeros are the default of a floating number. -/
def isDefault : Val → Bool
  | .text s => s.isEmpty
  | .bytes bs => bs.isEmpty
  | .bool b => !b
  | .int n => n == 0
  | .f64 bits => bits == 0 || bits == 0x8000000000000000
  | _ => false

end Kind

inductive Shape where
  | single (k : Kind)
  | optional (k : Kind)
  | repeated (k : Kind)
  /-- A map from texts to 64-bit integers. -/
  | counts
  /-- An optional message of the same type. -/
  | same
deriving Repr, DecidableEq

def Shape.default : Shape → Val
  | single k => k.default
  | optional _ | same => .none
  | repeated _ => .list []
  | counts => .map []

structure Field where
  number : Nat
  name : String
  shape : Shape
deriving Repr, DecidableEq

/-- A message type; its fields are in the order of their numbers. -/
structure MessageType where
  name : String
  fields : List Field
deriving Repr, DecidableEq

def MessageType.default (t : MessageType) : List Val := t.fields.map fun f => f.shape.default

def token : MessageType where
  name := "ProtoToken"
  fields := [⟨1, "token", .single .text⟩, ⟨2, "device_id", .single .text⟩,
    ⟨3, "created_at", .single .int64⟩, ⟨4, "scopes", .repeated .text⟩]

def profile : MessageType where
  name := "ProtoProfile"
  fields := [⟨1, "id", .single .uint64⟩, ⟨2, "name", .optional .text⟩,
    ⟨3, "balance", .single .sint64⟩, ⟨4, "ratio", .single .double⟩,
    ⟨5, "avatar", .single .bytes⟩, ⟨6, "active", .single .bool⟩, ⟨7, "parent", .same⟩,
    ⟨8, "attrs", .counts⟩, ⟨9, "history", .repeated .int32⟩, ⟨16, "mark", .single .fixed32⟩]

end Message
end CacheFacade
