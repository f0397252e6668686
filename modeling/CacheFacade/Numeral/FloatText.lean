import CacheFacade.Numeral.Shortest

/-!
The text of a finite number: its shortest digits, laid out around a point or with an exponent. A
style says which leading exponents are written around a point and where a tie goes.
-/

namespace CacheFacade

structure FloatStyle where
  tie : Tie
  /-- Whether a number with this exponent of its leading digit is written without an exponent. -/
  positional : Int → Bool

namespace FloatStyle

/-- Every number is written around a point, whatever its size. -/
def plain : FloatStyle := ⟨.up, fun _ => true⟩

/-- Documents leave positional form below `10 ^ -5` and from `10 ^ 16` on. -/
def document64 : FloatStyle := ⟨.even, fun e => -5 ≤ e && e ≤ 15⟩

/-- For the narrow format the bounds are `10 ^ -6` and `10 ^ 13`. -/
def document32 : FloatStyle := ⟨.even, fun e => -6 ≤ e && e ≤ 12⟩

def zeros (n : Nat) : List Char := List.replicate n '0'

/-- The decimal `d * 10 ^ g` around a point, with at least one digit on each side of it. -/
def pointed (d : Nat) (g : Int) : List Char :=
  let ds := Nat.toDigits 10 d
  let before := ds.length + g
  if 0 ≤ g then ds ++ zeros g.toNat ++ ['.', '0']
  else if 0 < before then ds.take before.toNat ++ '.' :: ds.drop before.toNat
  else '0' :: '.' :: zeros (-before).toNat ++ ds

/-- The decimal `d * 10 ^ g` with a signed exponent after its leading digit. -/
def exponential (d : Nat) (g : Int) : List Char :=
  let ds := Nat.toDigits 10 d
  let e : Int := ds.length + g - 1
  let mantissa := match ds with
    | [c] => [c]
    | c :: cs => c :: '.' :: cs
    | [] => []
  mantissa ++ 'e' :: (if e < 0 then '-' else '+') :: Nat.toDigits 10 e.natAbs

def magnitude (style : FloatStyle) (f : FloatFormat) (m : Nat) (e : Int) : List Char :=
  if m = 0 then ['0', '.', '0']
  else
    let (d, g) := Shortest.digits f style.tie m e
    if style.positional (Shortest.digitCount d + g - 1) then pointed d g else exponential d g

def text (style : FloatStyle) (f : FloatFormat) (negative : Bool) (m : Nat) (e : Int) : String :=
  let cs := style.magnitude f m e
  String.ofList (if negative then '-' :: cs else cs)

end FloatStyle
end CacheFacade
