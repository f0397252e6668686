import CacheFacade.Json.Writer

/-!
Writing scalars as their plain text, so that a server can work on them, and everything else as a
document. Names of variants, and wrappers around scalars, count as scalars.
-/

namespace CacheFacade
namespace Plain

/-- The text of a number; a whole number keeps its `.0`. -/
def numberText (f : FloatFormat) (bits : Nat) : String :=
  match f.decode bits with
  | .nan => "NaN"
  | .infinite negative => if negative then "-Inf" else "+Inf"
  | .finite negative m e => FloatStyle.plain.text f negative m e

/-- The plain text of a scalar, or `none` for what has parts. -/
def scalarText? : Datum → Option String
  | .bool b => some (toString b)
  | .int _ n => some (Integer.text n)
  | .f32 bits => some (numberText .binary32 bits.toNat)
  | .f64 bits => some (numberText .binary64 bits.toNat)
  | .char c => some c.toString
  | .text s => some s
  | .unitVariant _ name => some name
  | _ => none

def write (t : Ty) (v : Val) : Except Json.WriteFault Bytes :=
  let d := t.announce v
  match scalarText? d with
  | some s => .ok (Utf8.encode s)
  | none => Json.Writer.write d

end Plain
end CacheFacade
