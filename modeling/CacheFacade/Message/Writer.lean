import CacheFacade.Compact.Writer
import CacheFacade.Message.Schema

/-!
Writing a message: its fields in the order of their numbers, each behind a key that holds the number
and the way it is written. Repeated numbers share one key.
-/

namespace CacheFacade
namespace Message
namespace Writer

def key (number : Nat) (w : Wire) : Bytes := Varint.write (number * 8 + w.code)

def delimited (content : Bytes) : Bytes := Varint.write content.length ++ content

/-- The unsigned word of 64 bits that an integer is written as. -/
def word (n : Int) : Nat := (n % (Nat.pow 2 64 : Nat)).toNat

def scalar : Kind → Val → Bytes
  | .text, .text s => delimited (Utf8.encode s)
  | .bytes, .bytes bs => delimited bs
  | .bool, .bool b => [if b then 1 else 0]
  | .sint64, .int n => Varint.write (Varint.fold n)
  | .int32, .int n | .int64, .int n | .uint64, .int n => Varint.write (word n)
  | .double, .f64 bits => Compact.lowFirst 8 bits.toNat
  | .fixed32, .int n => Compact.lowFirst 4 n.toNat
  | _, _ => []

def keyed (number : Nat) (k : Kind) (v : Val) : Bytes := key number k.wire ++ scalar k v

def unlessDefault (number : Nat) (k : Kind) (v : Val) : Bytes :=
  if Kind.isDefault v then [] else keyed number k v

def entry (number : Nat) (e : Val × Val) : Bytes :=
  key number .delimited ++ delimited (unlessDefault 1 .text e.1 ++ unlessDefault 2 .int64 e.2)

def repeated (number : Nat) (k : Kind) (vs : List Val) : Bytes :=
  if k.wire = .delimited then vs.flatMap (keyed number k)
  else if vs.isEmpty then []
  else key number .delimited ++ delimited (vs.flatMap (scalar k))

mutual

/-- The fields of a message; `fields` are those of `t` that are still to be written. -/
def write (t : MessageType) : List Field → List Val → Bytes
  | f :: fields, v :: vs => field t f.number f.shape v ++ write t fields vs
  | _, _ => []

def field (t : MessageType) (number : Nat) : Shape → Val → Bytes
  | .single k, v => unlessDefault number k v
  | .optional k, .some v => keyed number k v
  | .repeated k, .list vs => repeated number k vs
  | .counts, .map entries => entries.flatMap (entry number)
  | .same, .some (.list vs) => key number .delimited ++ delimited (write t t.fields vs)
  | _, _ => []

end

end Writer

def write (t : MessageType) : Val → Bytes
  | .list vs => Writer.write t t.fields vs
  | _ => []

end Message
end CacheFacade
