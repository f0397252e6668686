import CacheFacade.Compact.Reader
import CacheFacade.Compact.Writer
import CacheFacade.Proofs.Bytes.Takes
import CacheFacade.Proofs.Numeral.Integer
import Mathlib.Tactic.Ring

/-!
Numbers as bytes, and back: integers of variable length, folded when they may be negative, and
numbers of a fixed size.
-/

namespace CacheFacade
namespace Varint

theorem toNat_toUInt8 {n : Nat} (small : n < 256) : n.toUInt8.toNat = n := by
  rw [Nat.toUInt8, UInt8.toNat_ofNat', Nat.mod_eq_of_lt small]

theorem readFrom_last {last left b : Nat} (below : b < 128) (fits : left = 0 → b ≤ last)
    (weight acc : Nat) (rest : Bytes) :
    readFrom last (left + 1) weight acc (b.toUInt8 :: rest) = .ok (acc + b * weight, rest) := by
  have byte : b.toUInt8.toNat = b := toNat_toUInt8 (by omega)
  have short : b.toUInt8 < 128 := by
    rw [UInt8.lt_iff_toNat_lt, byte]
    exact below
  have allowed : ¬ (left = 0 ∧ last < b) := fun beyond =>
    Nat.not_lt.mpr (fits beyond.1) beyond.2
  simp only [readFrom, byte, if_pos short, if_neg allowed, Nat.mod_eq_of_lt below]

theorem readFrom_more {last left b : Nat} (below : b < 128) (weight acc : Nat) (bs : Bytes) :
    readFrom last (left + 1) weight acc ((b + 128).toUInt8 :: bs) =
      readFrom last left (weight * 128) (acc + b * weight) bs := by
  have byte : (b + 128).toUInt8.toNat = b + 128 := toNat_toUInt8 (by omega)
  have long : ¬ (b + 128).toUInt8 < 128 := by
    rw [UInt8.lt_iff_toNat_lt, byte]
    exact Nat.not_lt.mpr (Nat.le_add_left 128 b)
  have low : (b + 128) % 128 = b := by omega
  simp only [readFrom, byte, if_neg long, low]

theorem readFrom_write {last left n : Nat} (small : last < 128) (fits : n / 128 ^ left ≤ last)
    (weight acc : Nat) (rest : Bytes) :
    readFrom last (left + 1) weight acc (write n ++ rest) = .ok (acc + n * weight, rest) := by
  induction n using write.induct generalizing left weight acc with
  | case1 n below =>
      rw [write, if_pos below]
      apply readFrom_last below
      rintro rfl
      simpa using fits
  | case2 n large ih =>
      rw [write, if_neg large, List.cons_append]
      cases left with
      | zero =>
          rw [Nat.pow_zero, Nat.div_one] at fits
          omega
      | succ left =>
          have next : n / 128 / 128 ^ left ≤ last := by
            rwa [Nat.div_div_eq_div_mul, ← Nat.pow_succ']
          have whole : n % 128 * weight + n / 128 * (weight * 128) = n * weight :=
            calc
              _ = (n % 128 + 128 * (n / 128)) * weight := by ring
              _ = n * weight := by rw [Nat.mod_add_div]
          rw [readFrom_more (Nat.mod_lt n (by decide)), ih next, Nat.add_assoc, whole]

theorem read_write {bits n : Nat} (positive : 0 < bits) (fits : n < 2 ^ bits) (rest : Bytes) :
    read (.ofBits bits) (write n ++ rest) = .ok (n, rest) := by
  obtain ⟨left, size⟩ : ∃ left, (bits + 6) / 7 = left + 1 := ⟨(bits + 6) / 7 - 1, by omega⟩
  -- The last byte takes the bits that those before it leave.
  have shared : 2 ^ bits = 128 ^ left * 2 ^ (bits - left * 7) := by
    rw [show (128 : Nat) = 2 ^ 7 from rfl, ← Nat.pow_mul, ← Nat.pow_add]
    congr 1
    omega
  have highest : n / 128 ^ left ≤ 2 ^ (bits - left * 7) - 1 := by
    rw [shared] at fits
    exact Nat.le_sub_one_of_lt (Nat.div_lt_of_lt_mul fits)
  have small : 2 ^ (bits - left * 7) - 1 < 128 := by
    have few : 2 ^ (bits - left * 7) ≤ 2 ^ 7 := Nat.pow_le_pow_right (by decide) (by omega)
    omega
  have run := readFrom_write small highest 1 0 rest
  simpa [read, Shape.ofBits, size] using run

theorem write_of_lt {n : Nat} (small : n < 128) : write n = [n.toUInt8] := by
  rw [write, if_pos small]

theorem write_ne_nil (n : Nat) : write n ≠ [] := by
  rw [write]
  split <;> exact List.cons_ne_nil _ _

/-- All bytes of a number but the last one tell that more follow. -/
theorem write_eq_concat (n : Nat) :
    ∃ front last, write n = front ++ [last] ∧ (∀ b ∈ front, 128 ≤ b.toNat) ∧ last.toNat < 128 := by
  induction n using write.induct with
  | case1 n small =>
      refine ⟨[], n.toUInt8, write_of_lt small, nofun, ?_⟩
      rw [toNat_toUInt8 (by omega)]
      exact small
  | case2 n large ih =>
      obtain ⟨front, last, bytes, high, low⟩ := ih
      refine ⟨(n % 128 + 128).toUInt8 :: front, last, ?_, ?_, low⟩
      · rw [write, if_neg large, bytes]
        rfl
      · refine List.forall_mem_cons.mpr ⟨?_, high⟩
        rw [toNat_toUInt8 (by omega)]
        omega

theorem unfold_fold (n : Int) : unfold (fold n) = n := by
  unfold unfold fold
  split <;> split <;> omega

/-- Folding takes no bit more than the integer has. -/
theorem fold_lt {k : IntKind} {n : Int} (signed : k.signed = true) (held : k.holds n = true) :
    fold n < 2 ^ k.width.bits := by
  obtain ⟨low, high⟩ := IntKind.holds_iff.mp held
  have double : 2 ^ k.width.bits = 2 * Nat.pow 2 (k.width.bits - 1) := by
    cases k.width <;> rfl
  simp only [IntKind.least, IntKind.greatest, signed, if_true] at low high
  unfold fold
  split <;> omega

end Varint

namespace Compact

@[simp] theorem length_lowFirst (size n : Nat) : (lowFirst size n).length = size := by
  induction size generalizing n with
  | zero => rfl
  | succ size ih => rw [lowFirst, List.length_cons, ih]

theorem ofLowFirst_lowFirst {size n : Nat} (fits : n < 256 ^ size) :
    Reader.ofLowFirst (lowFirst size n) = n := by
  induction size generalizing n with
  | zero =>
      rw [Nat.pow_zero] at fits
      exact (Nat.lt_one_iff.mp fits).symm
  | succ size ih =>
      have next : n / 256 < 256 ^ size := by
        apply Nat.div_lt_of_lt_mul
        rwa [← Nat.pow_succ']
      have byte : n.toUInt8.toNat = n % 256 := UInt8.toNat_ofNat'
      rw [lowFirst, Reader.ofLowFirst, ih next, byte, Nat.mod_add_div]

theorem takes_ofLowFirst {ε : Type} {take : Nat → StateT Bytes (Except ε) Bytes}
    (whole : ∀ bs, Takes (take bs.length) bs bs) {size n : Nat} (fits : n < 256 ^ size) :
    Takes (do return Reader.ofLowFirst (← take size)) (lowFirst size n) n := by
  have all := whole (lowFirst size n)
  rw [length_lowFirst] at all
  refine all.finish ?_
  rw [ofLowFirst_lowFirst fits]
  exact .done n

end Compact
end CacheFacade
