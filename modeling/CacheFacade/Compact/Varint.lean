import CacheFacade.Bytes
import CacheFacade.Numeral.Integer

/-!
Variable-length integers: seven bits a byte, the low ones first, and a set high bit where more
follow. Signed numbers are folded first, so that small ones of either sign stay short.
-/

namespace CacheFacade
namespace Varint

def write (n : Nat) : Bytes :=
  if n < 128 then [n.toUInt8] else (n % 128 + 128).toUInt8 :: write (n / 128)
termination_by n
decreasing_by omega

/-- Folds the signs together: zero, minus one, one, minus two, … -/
def fold (n : Int) : Nat := if 0 ≤ n then 2 * n.toNat else 2 * (-n).toNat - 1

def unfold (n : Nat) : Int := if n % 2 = 0 then (n / 2 : Nat) else -((n / 2 : Nat) + 1 : Int)

/-- How many bytes a number of a width may take, and the greatest last byte of so many. -/
structure Shape where
  size : Nat
  last : Nat
deriving Repr, DecidableEq

def Shape.ofBits (bits : Nat) : Shape :=
  ⟨(bits + 6) / 7, Nat.pow 2 (bits - ((bits + 6) / 7 - 1) * 7) - 1⟩

inductive Fault where
  | cut
  | endless
deriving Repr, DecidableEq

/-- Reads `left` more bytes at most; `weight` is that of the next seven bits. -/
def readFrom (last : Nat) : Nat → Nat → Nat → Bytes → Except Fault (Nat × Bytes)
  | 0, _, _, _ => .error .endless
  | _ + 1, _, _, [] => .error .cut
  | left + 1, weight, acc, b :: bs =>
    let n := acc + b.toNat % 128 * weight
    if b < 128 then
      if left = 0 ∧ last < b.toNat then .error .endless else .ok (n, bs)
    else readFrom last left (weight * 128) n bs

def read (shape : Shape) (bs : Bytes) : Except Fault (Nat × Bytes) :=
  readFrom shape.last shape.size 1 0 bs

end Varint
end CacheFacade
