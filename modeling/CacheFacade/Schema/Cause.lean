import CacheFacade.Numeral.FloatText
import CacheFacade.Schema.Type
import CacheFacade.Text.Quoted

/-!
Why a type refuses what a format offers it, and the wording of each cause. Two formats word a
missing value and a floating number differently, so the wording takes a dialect.
-/

namespace CacheFacade

/-- What a format offered. -/
inductive Found where
  | bool (b : Bool)
  | integer (n : Int)
  | float (bits : UInt64)
  | text (s : String)
  | bytes
  | unit
  | list
  | map
  | unitVariant
deriving Repr, DecidableEq

inductive Cause where
  | invalidType (found : Found) (expected : String)
  | invalidValue (found : Found) (expected : String)
  | invalidLength (length : Nat) (expected : String)
  | unknownVariant (name : String) (known : List String)
  | unknownField (name : String) (known : List String)
  | missingField (name : String)
  | duplicateField (name : String)
  | custom (text : String)
deriving Repr, DecidableEq

inductive Dialect where
  | document
  | plain
deriving Repr, DecidableEq

namespace Dialect

def nullName : Dialect → String
  | document => "null"
  | plain => "unit value"

def floatStyle : Dialect → FloatStyle
  | document => .document64
  | plain => .plain

def numberText (d : Dialect) (bits : UInt64) : String :=
  match FloatFormat.binary64.decode bits.toNat with
  | .nan => "NaN"
  | .infinite negative => if negative then "-inf" else "inf"
  | .finite negative m e => d.floatStyle.text .binary64 negative m e

end Dialect

def Found.describe (d : Dialect) : Found → String
  | bool b => s!"boolean `{b}`"
  | integer n => s!"integer `{n}`"
  | float bits => s!"floating point `{d.numberText bits}`"
  | text s => s!"string {Quoted.text s}"
  | bytes => "byte array"
  | unit => d.nullName
  | list => "sequence"
  | map => "map"
  | unitVariant => "unit variant"

namespace Cause

def ticked (s : String) : String := s!"`{s}`"

/-- The wording of a list of names of which one was expected. -/
def oneOf : List String → String
  | [] => ""
  | [a] => ticked a
  | [a, b] => s!"{ticked a} or {ticked b}"
  | names => "one of " ++ ", ".intercalate (names.map ticked)

def message (d : Dialect) : Cause → String
  | invalidType found expected => s!"invalid type: {found.describe d}, expected {expected}"
  | invalidValue found expected => s!"invalid value: {found.describe d}, expected {expected}"
  | invalidLength n expected => s!"invalid length {n}, expected {expected}"
  | unknownVariant name [] => s!"unknown variant {ticked name}, there are no variants"
  | unknownVariant name known => s!"unknown variant {ticked name}, expected {oneOf known}"
  | unknownField name [] => s!"unknown field {ticked name}, there are no fields"
  | unknownField name known => s!"unknown field {ticked name}, expected {oneOf known}"
  | missingField name => s!"missing field {ticked name}"
  | duplicateField name => s!"duplicate field {ticked name}"
  | custom text => text

end Cause
end CacheFacade
