import CacheFacade.Compact.Varint
import CacheFacade.Schema.Announce

/-!
Writing what a value announces in the compact form: no names and no marks of kind, lengths before
what has a length, variants by their index. What is read back must be asked for as the same type.
-/

namespace CacheFacade
namespace Compact

inductive WriteFault where
  /-- A map did not announce its size. -/
  | unknownLength
  | refused
deriving Repr, DecidableEq

def WriteFault.message : WriteFault → String
  | unknownLength => "The length of a sequence must be known"
  | refused => "Serde Serialization Error"

/-- The bytes of a number, the low ones first. -/
def lowFirst : Nat → Nat → Bytes
  | 0, _ => []
  | size + 1, n => n.toUInt8 :: lowFirst size (n / 256)

namespace Writer

/-- Single bytes stand for themselves; wider integers are variable in length. -/
def int (k : IntKind) (n : Int) : Bytes :=
  match k.width, k.signed with
  | .w8, _ => [(n % 256).toNat.toUInt8]
  | _, true => Varint.write (Varint.fold n)
  | _, false => Varint.write n.toNat

def counted (n : Nat) (content : Bytes) : Bytes := Varint.write n ++ content

def raw (bs : Bytes) : Bytes := counted bs.length bs

mutual

def write : Datum → Except WriteFault Bytes
  | .bool b => .ok [if b then 1 else 0]
  | .int k n => .ok (int k n)
  | .f32 bits => .ok (lowFirst 4 bits.toNat)
  | .f64 bits => .ok (lowFirst 8 bits.toNat)
  | .char c => .ok (raw (Utf8.encode c.toString))
  | .text s => .ok (raw (Utf8.encode s))
  | .bytes bs => .ok (raw bs)
  | .none => .ok [0]
  | .some d => do return 1 :: (← write d)
  | .unit => .ok []
  | .list ds => do return counted ds.length (← writeAll ds)
  | .tuple ds => writeAll ds
  | .map true entries => do return counted entries.length (← writeEntries entries)
  | .map false _ => .error .unknownLength
  | .record fields => writeFields fields
  | .unitVariant index _ => .ok (Varint.write index)
  | .wrapVariant index _ d => do return counted index (← write d)
  | .tupleVariant index _ ds => do return counted index (← writeAll ds)
  | .recordVariant index _ fields => do return counted index (← writeFields fields)
  | .refusal _ => .error .refused

def writeAll : List Datum → Except WriteFault Bytes
  | [] => .ok []
  | d :: ds => do
    let b ← write d
    return b ++ (← writeAll ds)

def writeEntries : List (Datum × Datum) → Except WriteFault Bytes
  | [] => .ok []
  | (k, d) :: rest => do
    let key ← write k
    let b ← write d
    return key ++ b ++ (← writeEntries rest)

def writeFields : List (String × Datum) → Except WriteFault Bytes
  | [] => .ok []
  | (_, d) :: rest => do
    let b ← write d
    return b ++ (← writeFields rest)

end

end Writer

/-- A value in the compact form. -/
def write (t : Ty) (v : Val) : Except WriteFault Bytes := Writer.write (t.announce v)

end Compact
end CacheFacade
