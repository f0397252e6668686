import CacheFacade.Numeral.FloatText
import CacheFacade.Schema.Announce

/-!
Writing what a value announces as a document text, without white space. Variants that hold something
are objects with one entry under their name; keys are texts, and scalars in quotes.
-/

namespace CacheFacade
namespace Json

inductive WriteFault where
  | keyNotText
  | keyNotFinite
  | refused (text : String)
deriving Repr, DecidableEq

def WriteFault.message : WriteFault → String
  | keyNotText => "key must be a string"
  | keyNotFinite => "float key must be finite (got NaN or +/-inf)"
  | refused text => text

namespace Writer

def ascii (s : String) : Bytes := Utf8.encode s

def hexDigit (n : Nat) : UInt8 := (if n < 10 then 48 + n else 87 + n).toUInt8

/-- A byte of a text, escaped where the grammar asks for it. -/
def escape (b : UInt8) : Bytes :=
  if b == 34 then [92, 34]
  else if b == 92 then [92, 92]
  else if b == 8 then [92, 98]
  else if b == 9 then [92, 116]
  else if b == 10 then [92, 110]
  else if b == 12 then [92, 102]
  else if b == 13 then [92, 114]
  else if b < 32 then [92, 117, 48, 48, hexDigit (b.toNat / 16), hexDigit (b.toNat % 16)]
  else [b]

def text (s : String) : Bytes := 34 :: (Utf8.encode s).flatMap escape ++ [34]

def quoted (s : String) : Bytes := 34 :: ascii s ++ [34]

def int (n : Int) : String := Integer.text n

/-- The text of a number of a format; what is not finite has none. -/
def float? (style : FloatStyle) (f : FloatFormat) (bits : Nat) : Option String :=
  match f.decode bits with
  | .finite negative m e => some (style.text f negative m e)
  | _ => none

def f64? (bits : UInt64) : Option String := float? .document64 .binary64 bits.toNat
def f32? (bits : UInt32) : Option String := float? .document32 .binary32 bits.toNat

def null : Bytes := ascii "null"

def orNull (s : Option String) : Bytes := ascii (s.getD "null")

def commaSeparated : List Bytes → Bytes
  | [] => []
  | [b] => b
  | b :: bs => b ++ 44 :: commaSeparated bs

def list (items : List Bytes) : Bytes := 91 :: commaSeparated items ++ [93]

def object (entries : List (Bytes × Bytes)) : Bytes :=
  123 :: commaSeparated (entries.map fun e => e.1 ++ 58 :: e.2) ++ [125]

/-- A variant that holds something. -/
def under (name : String) (content : Bytes) : Bytes := object [(text name, content)]

def finiteKey : Option String → Except WriteFault Bytes
  | some s => .ok (quoted s)
  | none => .error .keyNotFinite

def key : Datum → Except WriteFault Bytes
  | .text s => .ok (text s)
  | .char c => .ok (text c.toString)
  | .bool b => .ok (quoted (toString b))
  | .int _ n => .ok (quoted (int n))
  | .f32 bits => finiteKey (f32? bits)
  | .f64 bits => finiteKey (f64? bits)
  | .unitVariant _ name => .ok (text name)
  | .some d => key d
  | .refusal s => .error (.refused s)
  | _ => .error .keyNotText

mutual

def write : Datum → Except WriteFault Bytes
  | .bool b => .ok (ascii (toString b))
  | .int _ n => .ok (ascii (int n))
  | .f32 bits => .ok (orNull (f32? bits))
  | .f64 bits => .ok (orNull (f64? bits))
  | .char c => .ok (text c.toString)
  | .text s => .ok (text s)
  | .bytes bs => .ok (list (bs.map fun b => ascii (int b.toNat)))
  | .none | .unit => .ok null
  | .some d => write d
  | .list ds | .tuple ds => do return list (← writeAll ds)
  | .map _ entries => do return object (← writeEntries entries)
  | .record fields => do return object (← writeFields fields)
  | .unitVariant _ name => .ok (text name)
  | .wrapVariant _ name d => do return under name (← write d)
  | .tupleVariant _ name ds => do return under name (list (← writeAll ds))
  | .recordVariant _ name fields => do return under name (object (← writeFields fields))
  | .refusal s => .error (.refused s)

def writeAll : List Datum → Except WriteFault (List Bytes)
  | [] => .ok []
  | d :: ds => do
    let b ← write d
    return b :: (← writeAll ds)

def writeEntries : List (Datum × Datum) → Except WriteFault (List (Bytes × Bytes))
  | [] => .ok []
  | (k, d) :: rest => do
    let name ← key k
    let b ← write d
    return (name, b) :: (← writeEntries rest)

def writeFields : List (String × Datum) → Except WriteFault (List (Bytes × Bytes))
  | [] => .ok []
  | (name, d) :: rest => do
    let b ← write d
    return (text name, b) :: (← writeFields rest)

end

end Writer

/-- A value as a document text. -/
def write (t : Ty) (v : Val) : Except WriteFault Bytes := Writer.write (t.announce v)

end Json
end CacheFacade
