import CacheFacade.FieldTtl
import CacheFacade.Proofs.Numeral.Integer
import Mathlib.Algebra.Group.Int.Defs
import Mathlib.Algebra.Group.Nat.Defs

/-!
The codes of field lifetimes. A code tells what is left in whole seconds, a signed word of which two
negative values are set apart. Every code from the least of these on comes back from its meaning. A
lifetime comes back but for its fraction of a second if its seconds fit the word; if they do not,
its code is negative, and reads as one of a field that is missing or does not expire.
-/

namespace CacheFacade

theorem Span.seconds_ofSeconds (n : Nat) : (ofSeconds n).seconds = n :=
  Nat.mul_div_cancel n (by decide)

namespace FieldTtl

/-- Without the fraction of a second. -/
def whole : FieldTtl → FieldTtl
  | missing => missing
  | persistent => persistent
  | expires d => expires (.ofSeconds d.seconds)

/-- A lifetime that a program can have is at most the greatest span. -/
def Bounded : FieldTtl → Prop
  | missing | persistent => True
  | expires d => d.nanos ≤ Span.greatest.nanos

instance : (t : FieldTtl) → Decidable t.Bounded
  | missing | persistent => inferInstanceAs (Decidable True)
  | expires d => inferInstanceAs (Decidable (d.nanos ≤ Span.greatest.nanos))

/-- The seconds of a lifetime do not fit a signed word. -/
def Overlong : FieldTtl → Prop
  | missing | persistent => False
  | expires d => IntKind.i64.greatest < d.seconds

instance : (t : FieldTtl) → Decidable t.Overlong
  | missing | persistent => inferInstanceAs (Decidable False)
  | expires d => inferInstanceAs (Decidable (IntKind.i64.greatest < d.seconds))

theorem seconds_lt_of_bounded {d : Span} (bounded : (expires d).Bounded) : d.seconds < 2 ^ 64 := by
  have fits : d.nanos < 2 ^ 64 * Span.perSecond := Nat.lt_of_le_pred (by decide) bounded
  exact Nat.div_lt_of_lt_mul (by rwa [Nat.mul_comm])

theorem overlong_iff {d : Span} : (expires d).Overlong ↔ 2 ^ 63 ≤ d.seconds := by
  change (9223372036854775807 : Int) < d.seconds ↔ _
  omega

/-- Seconds that fit the word are their own code. -/
theorem toCode_of_not_overlong {d : Span} (short : ¬ (expires d).Overlong) :
    (expires d).toCode = d.seconds := by
  rw [overlong_iff] at short
  apply IntKind.wrap_of_holds
  rw [IntKind.holds_i64_iff]
  omega

/-- Seconds that do not fit are told less by the range of the word. -/
theorem toCode_of_overlong {d : Span} (bounded : (expires d).Bounded)
    (long : (expires d).Overlong) : (expires d).toCode = d.seconds - 2 ^ 64 := by
  have below := seconds_lt_of_bounded bounded
  rw [overlong_iff] at long
  rw [toCode, IntKind.wrap_i64, Int.bmod_eq_iff (by decide)]
  exact ⟨by omega, by omega, -1, by omega⟩

theorem ofCode_of_nonneg {code : Int} (nonneg : 0 ≤ code) :
    ofCode code = expires (.ofSeconds code.toNat) := by
  rw [ofCode, if_neg (by omega), if_neg (by omega)]

theorem toCode_ofCode {code : Int} (word : IntKind.i64.holds code = true) :
    (ofCode code).toCode = if -2 ≤ code then code else -1 := by
  by_cases nonneg : 0 ≤ code
  · have seconds : ((Span.ofSeconds code.toNat).seconds : Int) = code := by
      rw [Span.seconds_ofSeconds, Int.toNat_of_nonneg nonneg]
    have short : ¬ (expires (.ofSeconds code.toNat)).Overlong := by
      have high := (IntKind.holds_iff.mp word).2
      change ¬ IntKind.i64.greatest < ((Span.ofSeconds code.toNat).seconds : Int)
      omega
    rw [ofCode_of_nonneg nonneg, toCode_of_not_overlong short, seconds, if_pos (by omega)]
  · by_cases gone : code = -2
    · subst gone
      rfl
    · rw [ofCode, if_neg gone, if_pos (by omega)]
      change (-1 : Int) = _
      split <;> omega

theorem ofCode_toCode {d : Span} (bounded : (expires d).Bounded) :
    ofCode (expires d).toCode =
      if (expires d).Overlong then (if d.seconds + 2 = 2 ^ 64 then missing else persistent)
      else expires (.ofSeconds d.seconds) := by
  by_cases long : (expires d).Overlong
  · have below := seconds_lt_of_bounded bounded
    rw [if_pos long, toCode_of_overlong bounded long, ofCode]
    split
    · rw [if_pos (by omega)]
    · rw [if_pos (by omega), if_neg (by omega)]
  · rw [if_neg long, toCode_of_not_overlong long, ofCode_of_nonneg (Int.natCast_nonneg _)]
    rfl

theorem ofCode_toCode_eq_whole_iff {t : FieldTtl} (bounded : t.Bounded) :
    ofCode t.toCode = t.whole ↔ ¬ t.Overlong := by
  cases t with
  | missing | persistent => exact iff_of_true rfl id
  | expires d =>
      rw [ofCode_toCode bounded]
      by_cases long : (expires d).Overlong
      · rw [if_pos long]
        refine iff_of_false (fun same => ?_) (not_not_intro long)
        split at same <;> cases same
      · rw [if_neg long]
        exact iff_of_true rfl long

/-- Only lifetimes that are too long are told by a code that is set apart. -/
theorem overlong_iff_toCode_neg {t : FieldTtl} (bounded : t.Bounded) :
    t.Overlong ↔ t ≠ missing ∧ t ≠ persistent ∧ t.toCode < 0 := by
  cases t with
  | missing => exact iff_of_false id fun told => told.1 rfl
  | persistent => exact iff_of_false id fun told => told.2.1 rfl
  | expires d =>
      by_cases long : (expires d).Overlong
      · have below := seconds_lt_of_bounded bounded
        refine iff_of_true long ⟨nofun, nofun, ?_⟩
        rw [toCode_of_overlong bounded long]
        omega
      · refine iff_of_false long fun told => ?_
        rw [toCode_of_not_overlong long] at told
        omega

/-- Codes come back from their meaning, all negative ones but the two that are set apart as that of
a field that does not expire. Lifetimes come back in whole seconds exactly if these fit the word; the
code of one that is too long is negative, as if the field were missing or did not expire. -/
theorem comesBack_iff_not_overlong {code : Int} {t : FieldTtl}
    (word : IntKind.i64.holds code = true) (bounded : t.Bounded) :
    (ofCode code).toCode = (if -2 ≤ code then code else -1) ∧
      (ofCode t.toCode = t.whole ↔ ¬ t.Overlong) ∧
      (t.Overlong ↔ t ≠ missing ∧ t ≠ persistent ∧ t.toCode < 0) :=
  ⟨toCode_ofCode word, ofCode_toCode_eq_whole_iff bounded, overlong_iff_toCode_neg bounded⟩

/-- The code of a missing field, and the longest lifetime that comes back. -/
theorem comesBack_longest :
    let longest : FieldTtl := expires ⟨9223372036854775807999999999⟩
    (IntKind.i64.holds (-2) = true ∧ (ofCode (-2)).toCode = -2) ∧
      longest.Bounded ∧ ofCode longest.toCode = expires (.ofSeconds 9223372036854775807) := by
  have word : IntKind.i64.holds (-2) = true := by decide
  have bounded : (expires ⟨9223372036854775807999999999⟩).Bounded := by decide
  obtain ⟨code, lifetime, -⟩ := comesBack_iff_not_overlong word bounded
  exact ⟨⟨word, code⟩, bounded, lifetime.mpr (by decide)⟩

/-- Lifetimes as long as they can be are told as if the field did not expire or were missing. -/
theorem not_comesBack_of_longer :
    let longer : FieldTtl := expires (.ofSeconds 18446744073709551615)
    let missed : FieldTtl := expires (.ofSeconds 18446744073709551614)
    longer.Bounded ∧ longer.toCode = -1 ∧ ofCode longer.toCode ≠ longer.whole ∧
      missed.Bounded ∧ missed.toCode = -2 ∧ ofCode missed.toCode ≠ missed.whole :=
  ⟨by decide, by decide, by decide, by decide, by decide, by decide⟩

end FieldTtl
end CacheFacade
