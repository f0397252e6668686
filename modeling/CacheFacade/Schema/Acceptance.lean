import CacheFacade.Schema.Cause

/-!
What a type makes of a value without parts. A format reads a scalar from its own text and hands it
to the type, which takes it or gives the cause why not.
-/

namespace CacheFacade

inductive Scalar where
  | bool (b : Bool)
  | int (n : Int)
  | float (bits : UInt64)
  | text (s : String)
  | bytes (bs : Bytes)
  | unit
deriving Repr, DecidableEq

namespace Scalar

def found : Scalar → Found
  | bool b => .bool b
  | int n => .integer n
  | float bits => .float bits
  | text s => .text s
  | bytes _ => .bytes
  | unit => .unit

def sighting : Scalar → Sighting
  | bool b => .bool b
  | int n => .int n
  | float bits => .float bits
  | text s => .text s
  | bytes bs => .bytes bs
  | unit => .unit

/-- The document that is this scalar; documents hold no byte strings. -/
def document? : Scalar → Option Document
  | bool b => some (.bool b)
  | int n => some (.int n)
  | float bits => some (.float bits)
  | text s => some (.text s)
  | bytes _ => none
  | unit => some .null

end Scalar

def f64OfInt (n : Int) : UInt64 := (FloatFormat.binary64.ofInt n).toUInt64

def f32OfInt (n : Int) : UInt32 := (FloatFormat.binary32.ofInt n).toUInt32

def f32OfF64 (bits : UInt64) : UInt32 :=
  (FloatFormat.binary64.convert .binary32 bits.toNat).toUInt32

namespace Ty

def refuseType (t : Ty) (s : Scalar) : Except Cause Val := .error (.invalidType s.found t.expecting)

def refuseValue (t : Ty) (s : Scalar) : Except Cause Val :=
  .error (.invalidValue s.found t.expecting)

def acceptInt (t : Ty) (k : IntKind) : Scalar → Except Cause Val
  | .int n => if k.holds n then .ok (.int n) else t.refuseValue (.int n)
  | s => t.refuseType s

/-- The rule of the even integers, once the integer itself was read. -/
def checkEven : Val → Except Cause Val
  | .int n => if n % 2 = 0 then .ok (.int n) else .error (.custom s!"odd value {n}")
  | v => .ok v

def accept (t : Ty) (s : Scalar) : Except Cause Val :=
  match t, s with
  | .bool, .bool b => .ok (.bool b)
  | .int k, s => t.acceptInt k s
  | .f32, .int n => .ok (.f32 (f32OfInt n))
  | .f32, .float bits => .ok (.f32 (f32OfF64 bits))
  | .f64, .int n => .ok (.f64 (f64OfInt n))
  | .f64, .float bits => .ok (.f64 bits)
  | .char, .text s =>
    match s.toList with
    | [c] => .ok (.char c)
    | _ => t.refuseValue (.text s)
  | .text, .text s => .ok (.text s)
  | .text, .bytes bs =>
    match Utf8.decode bs with
    | .ok s => .ok (.text s)
    | .error _ => t.refuseValue (.bytes bs)
  | .bytes, .text s => .ok (.bytes (Utf8.encode s))
  | .bytes, .bytes bs => .ok (.bytes bs)
  | .unit, .unit | .unitNamed _, .unit | .bareNone, .unit => .ok .unit
  | .option _, .unit => .ok .none
  | .document, s =>
    match s.document? with
    | some d => .ok (.document d)
    | none => t.refuseType s
  | .even, s => t.acceptInt .i64 s >>= checkEven
  | .probe _, s => .ok (.sighting s.sighting)
  | t, s => t.refuseType s

/-- What stands for a field that is absent and has no value of its own for that. -/
def whenMissing (name : String) : Ty → Except Cause Val
  | .option _ => .ok .none
  | _ => .error (.missingField name)

end Ty

/-- The value of a field that the input does not hold. -/
def FieldSpec.valueWhenAbsent (spec : FieldSpec) (t : Ty) : Except Cause Val :=
  match spec.absent with
  | some v => .ok v
  | none => t.whenMissing spec.name

end CacheFacade
