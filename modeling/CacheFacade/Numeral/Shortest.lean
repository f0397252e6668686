import CacheFacade.Numeral.Binary

/-!
The shortest decimal that reads back as a given number. For 1, 2, … digits the two neighbours of the
number on that decimal grid are tested against the interval of reals that round to it; the first
grid with a hit wins, and of two hits the nearer one.
-/

namespace CacheFacade

/-- Which neighbour a number half-way between two of them goes to. -/
inductive Tie where
  | up
  | even
deriving Repr, DecidableEq

namespace Shortest

def digitCount (n : Nat) : Nat := (Nat.toDigits 10 n).length

/-- The exponent of the leading decimal digit of `num / den`, for a positive quotient. -/
def leadingExponent (num den : Nat) : Int :=
  if den ≤ num then (digitCount (num / den) : Int) - 1
  else
    let ceiling := (den + num - 1) / num
    Int.negOfNat (if ceiling ≤ 1 then 0 else digitCount (ceiling - 1))

/-- The neighbour of `num / den` on the grid of step `10 ^ g` that lies between the fractions
`low / den` and `high / den`, ends included when `closed`. -/
def onGrid (tie : Tie) (low num high den : Nat) (closed : Bool) (g : Int) : Option Nat :=
  let (unit, scale) := scaleByTen den 1 g
  -- a multiple `d` of the step is the number `d * unit / (scale * den)`
  let value := num * scale
  let d := value / unit
  let inside (d : Nat) : Bool :=
    if closed then low * scale ≤ d * unit && d * unit ≤ high * scale
    else low * scale < d * unit && d * unit < high * scale
  match inside d, inside (d + 1) with
  | false, false => none
  | true, false => some d
  | false, true => some (d + 1)
  | true, true =>
    let below := value - d * unit
    let above := (d + 1) * unit - value
    if below < above then some d
    else if above < below then some (d + 1)
    else match tie with
      | .up => some (d + 1)
      | .even => some (d + d % 2)

/-- Removes the last zeros of a decimal. -/
def normalize : Nat → Nat → Int → Nat × Int
  | 0, d, g => (d, g)
  | fuel + 1, d, g => if d % 10 = 0 ∧ d ≠ 0 then normalize fuel (d / 10) (g + 1) else (d, g)

/-- Tries grids of more and more digits. -/
def search (tie : Tie) (low num high den : Nat) (closed : Bool) (lead : Int) :
    Nat → Nat → Nat × Int
  | 0, _ => (num / den, 0)
  | fuel + 1, digits =>
    let g := lead - digits
    match onGrid tie low num high den closed g with
    | some d => normalize 20 d g
    | none => search tie low num high den closed lead fuel (digits + 1)

/-- Digits `d` and exponent `g` of the shortest decimal `d * 10 ^ g` for the number `m * 2 ^ e` of
a format, for `m` not zero. -/
def digits (f : FloatFormat) (tie : Tie) (m : Nat) (e : Int) : Nat × Int :=
  let narrow := m == f.hidden && f.leastExponent < e
  let (num, den) := scaleByTwo (4 * m) 1 (e - 2)
  let (low, _) := scaleByTwo (4 * m - if narrow then 1 else 2) 1 (e - 2)
  let (high, _) := scaleByTwo (4 * m + 2) 1 (e - 2)
  search tie low num high den (m % 2 == 0) (leadingExponent num den) 40 0

end Shortest
end CacheFacade
