import CacheFacade.Numeral.Binary
import CacheFacade.Numeral.Integer
import CacheFacade.Numeral.Shortest

/-!
Reading decimal text as the nearest number of a format. The grammar allows a sign, a point with
digits on at least one side, an exponent, and the names of infinity and of not-a-number in any case.
-/

namespace CacheFacade
namespace Decimal

inductive Fault where
  | empty
  | invalid
deriving Repr, DecidableEq

def Fault.message : Fault → String
  | empty => "cannot parse float from empty string"
  | invalid => "invalid float literal"

/-- The number that a digit string stands for. -/
def value (ds : List Char) : Nat := ds.foldl (fun n c => 10 * n + (c.toNat - 48)) 0

/-- The exponent part, up to the end of the text. -/
def exponent? : List Char → Option Int
  | [] => some 0
  | c :: cs =>
    if c == 'e' || c == 'E' then
      let (negative, ds) := match cs with
        | '-' :: ds => (true, ds)
        | '+' :: ds => (false, ds)
        | ds => (false, ds)
      if ds.isEmpty || !ds.all Char.isDigit then none
      else some (if negative then -(value ds : Int) else value ds)
    else none

/-- Digits `d` and exponent `g` of an unsigned decimal text. -/
def parts? (cs : List Char) : Option (Nat × Int) := do
  let whole := cs.takeWhile Char.isDigit
  let rest := cs.dropWhile Char.isDigit
  let (fraction, rest) := match rest with
    | '.' :: rest => (rest.takeWhile Char.isDigit, rest.dropWhile Char.isDigit)
    | rest => ([], rest)
  if whole.isEmpty && fraction.isEmpty then none
  else
    let e ← exponent? rest
    some (value (whole ++ fraction), e - fraction.length)

/-- The magnitude bits nearest to `d * 10 ^ g`. Beyond four hundred places every format is at zero
or at infinity. -/
def nearest (f : FloatFormat) (d : Nat) (g : Int) : Nat :=
  if d = 0 then 0
  else
    let lead := Shortest.digitCount d + g
    if 400 < lead then f.infinity
    else if lead < -400 then 0
    else
      let (num, den) := scaleByTen d 1 g
      f.round num den

def unsigned? (f : FloatFormat) (cs : List Char) : Option Nat :=
  let word := cs.map Char.toLower
  if word = "inf".toList ∨ word = "infinity".toList then some f.infinity
  else if word = "nan".toList then some f.quietNan
  else (parts? cs).map fun (d, g) => nearest f d g

def readChars (f : FloatFormat) : List Char → Except Fault Nat
  | [] => .error .empty
  | cs =>
    let (negative, body) := match cs with
      | '-' :: rest => (true, rest)
      | '+' :: rest => (false, rest)
      | rest => (false, rest)
    match unsigned? f body with
    | some magnitude => .ok (f.withSign negative magnitude)
    | none => .error .invalid

/-- The bits of the number nearest to the decimal text. -/
def read (f : FloatFormat) (s : String) : Except Fault Nat := readChars f s.toList

end Decimal
end CacheFacade
