/-!
Binary floating-point formats on their bit patterns, in exact arithmetic: what a pattern stands for,
and the pattern nearest to a quotient, a tie going to the even neighbour.
-/

namespace CacheFacade

/-- The whole number nearest to `num / den`; a half goes to the even neighbour. -/
def roundHalfEven (num den : Nat) : Nat :=
  let q := num / den
  let r := num % den
  if 2 * r < den then q else if den < 2 * r then q + 1 else q + q % 2

/-- A fraction times a power of two. -/
def scaleByTwo (num den : Nat) (e : Int) : Nat × Nat :=
  if 0 ≤ e then (num * Nat.pow 2 e.toNat, den) else (num, den * Nat.pow 2 (-e).toNat)

/-- A fraction times a power of ten. -/
def scaleByTen (num den : Nat) (e : Int) : Nat × Nat :=
  if 0 ≤ e then (num * Nat.pow 10 e.toNat, den) else (num, den * Nat.pow 10 (-e).toNat)

/-- A format: the bits of a significand, its hidden bit counted, and the bits of the exponent. -/
structure FloatFormat where
  precision : Nat
  exponentBits : Nat
deriving Repr, DecidableEq

inductive FloatValue where
  | nan
  | infinite (negative : Bool)
  /-- The number `± m * 2 ^ e`. -/
  | finite (negative : Bool) (m : Nat) (e : Int)
deriving Repr, DecidableEq

namespace FloatFormat

def binary32 : FloatFormat := ⟨24, 8⟩
def binary64 : FloatFormat := ⟨53, 11⟩

/-- The exponent of the last bit of the least numbers. -/
def leastExponent (f : FloatFormat) : Int :=
  3 - (Nat.pow 2 (f.exponentBits - 1) : Nat) - f.precision

/-- The weight of the hidden bit. -/
def hidden (f : FloatFormat) : Nat := Nat.pow 2 (f.precision - 1)

def infinity (f : FloatFormat) : Nat := (Nat.pow 2 f.exponentBits - 1) * f.hidden

def quietNan (f : FloatFormat) : Nat := f.infinity + f.hidden / 2

def signBit (f : FloatFormat) : Nat := Nat.pow 2 (f.precision - 1 + f.exponentBits)

def withSign (f : FloatFormat) (negative : Bool) (magnitude : Nat) : Nat :=
  if negative then f.signBit + magnitude else magnitude

def decode (f : FloatFormat) (bits : Nat) : FloatValue :=
  let negative := f.signBit ≤ bits
  let magnitude := bits % f.signBit
  if f.infinity < magnitude then .nan
  else if magnitude = f.infinity then .infinite negative
  else
    let field := magnitude / f.hidden
    let fraction := magnitude % f.hidden
    if field = 0 then .finite negative fraction f.leastExponent
    else .finite negative (fraction + f.hidden) (f.leastExponent + field - 1)

/-- The magnitude bits of the number nearest to `num / den`; what is too large becomes infinity. -/
def round (f : FloatFormat) (num den : Nat) : Nat :=
  if num = 0 then 0
  else
    let low := max ((num.log2 : Int) - den.log2 - f.precision) f.leastExponent
    let at' (e : Int) : Nat × Nat := scaleByTwo num den (-e)
    let e := if Nat.pow 2 f.precision ≤ (at' low).1 / (at' low).2 then low + 1 else low
    let m := roundHalfEven (at' e).1 (at' e).2
    min ((e - f.leastExponent).toNat * f.hidden + m) f.infinity

/-- The bits of `± m * 2 ^ e`, rounded. -/
def ofBinary (f : FloatFormat) (negative : Bool) (m : Nat) (e : Int) : Nat :=
  let (num, den) := scaleByTwo m 1 e
  f.withSign negative (f.round num den)

def ofInt (f : FloatFormat) (n : Int) : Nat := f.withSign (n < 0) (f.round n.natAbs 1)

/-- The bits in this format of what `bits` stands for in another one. -/
def convert (source target : FloatFormat) (bits : Nat) : Nat :=
  match source.decode bits with
  | .nan => target.quietNan
  | .infinite negative => target.withSign negative target.infinity
  | .finite negative m e => target.ofBinary negative m e

end FloatFormat
end CacheFacade
