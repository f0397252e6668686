import CacheFacade.Numeral.Integer

/-!
The decimal text of an integer, and reading it back. Reading is away from zero on either side, so
every prefix of the digits stands for an integer between zero and the one that is read.
-/

namespace CacheFacade

namespace IntKind

theorem least_nonpos (k : IntKind) : k.least ≤ 0 := by
  unfold least
  split <;> omega

theorem greatest_nonneg (k : IntKind) : 0 ≤ k.greatest := by
  have pos (n : Nat) : 0 < Nat.pow 2 n := Nat.two_pow_pos n
  unfold greatest
  split
  · have := pos (k.width.bits - 1)
    omega
  · have := pos k.width.bits
    omega

theorem holds_iff {k : IntKind} {n : Int} : k.holds n = true ↔ k.least ≤ n ∧ n ≤ k.greatest := by
  simp [holds]

theorem holds_i64_iff {n : Int} :
    i64.holds n = true ↔ -9223372036854775808 ≤ n ∧ n ≤ 9223372036854775807 :=
  holds_iff

theorem holds_u64_iff {n : Int} : u64.holds n = true ↔ 0 ≤ n ∧ n ≤ 18446744073709551615 :=
  holds_iff

theorem holds_of_between {k : IntKind} {m n : Int} (held : k.holds n = true)
    (between : 0 ≤ m ∧ m ≤ n ∨ n ≤ m ∧ m ≤ 0) : k.holds m = true := by
  have low := k.least_nonpos
  have high := k.greatest_nonneg
  rw [holds_iff] at held ⊢
  omega

theorem nonneg_of_holds {k : IntKind} {n : Int} (unsigned : k.signed = false)
    (held : k.holds n = true) : 0 ≤ n := by
  have low := (holds_iff.mp held).1
  simpa [least, unsigned] using low

theorem wrap_of_holds {k : IntKind} {n : Int} (held : k.holds n = true) : k.wrap n = n := by
  obtain ⟨low, high⟩ := holds_iff.mp held
  have double : Nat.pow 2 k.width.bits = 2 * Nat.pow 2 (k.width.bits - 1) := by
    cases k.width <;> rfl
  unfold wrap
  by_cases signed : k.signed = true
  · simp only [least, greatest, signed, if_true] at low high
    rw [if_pos signed]
    apply Int.bmod_eq_of_le <;> omega
  · simp only [least, greatest, signed, Bool.false_eq_true, if_false] at low high
    rw [if_neg signed]
    exact Int.emod_eq_of_lt low (by omega)

theorem wrap_i64 (n : Int) : i64.wrap n = n.bmod 18446744073709551616 := rfl

/-- The low bits of a number stand for the same as the number, whatever bits are cut off above. -/
theorem wrap_emod (k : IntKind) {m : Nat} (whole : Nat.pow 2 k.width.bits ∣ m) (n : Int) :
    k.wrap (n % (m : Nat)) = k.wrap n := by
  have cut := Int.emod_emod_of_dvd n (Int.natCast_dvd_natCast.mpr whole)
  unfold wrap
  split
  · rw [← Int.emod_bmod, cut, Int.emod_bmod]
  · exact cut

end IntKind

namespace Integer

/-- The digits of a magnitude, most significant first. -/
abbrev digits (n : Int) : List Char := Nat.toDigits 10 n.natAbs

/-- A magnitude on one side of zero. -/
def onSide (negative : Bool) (m : Nat) : Int := if negative then -m else m

@[simp] theorem onSide_zero (negative : Bool) : onSide negative 0 = 0 := by
  cases negative <;> rfl

theorem onSide_next (negative : Bool) (m d : Nat) :
    (if negative then onSide negative m * 10 - d else onSide negative m * 10 + d) =
      onSide negative (10 * m + d) := by
  cases negative <;> simp [onSide] <;> omega

theorem onSide_natAbs (n : Int) : onSide (decide (n < 0)) n.natAbs = n := by
  unfold onSide
  by_cases neg : n < 0
  · rw [decide_eq_true neg, if_pos rfl]
    omega
  · rw [decide_eq_false neg, if_neg Bool.false_ne_true]
    omega

theorem toList_text (n : Int) :
    (text n).toList = (if n < 0 then '-' :: digits n else digits n) := by
  cases n with
  | ofNat m =>
      have nonneg : ¬ Int.ofNat m < 0 := Int.not_lt.mpr (Int.natCast_nonneg m)
      rw [if_neg nonneg]
      change (Nat.repr m).toList = _
      exact Nat.toList_repr
  | negSucc m =>
      rw [if_pos (Int.negSucc_lt_zero m)]
      change ("-" ++ Nat.repr (m + 1)).toList = _
      rw [String.toList_append, Nat.toList_repr]
      rfl

theorem digit?_of_isDigit {c : Char} (digit : c.isDigit = true) :
    digit? c = some (c.toNat - '0'.toNat) := by
  rw [digit?, if_pos digit]
  rfl

theorem le_ofDigitChars (cs : List Char) (m : Nat) : m ≤ Nat.ofDigitChars 10 cs m := by
  induction cs generalizing m with
  | nil => exact Nat.le_refl m
  | cons c cs ih =>
      rw [Nat.ofDigitChars_cons]
      exact Nat.le_trans (by omega) (ih _)

theorem holds_onSide_of_le {k : IntKind} {negative : Bool} {m n : Nat}
    (held : k.holds (onSide negative n) = true) (le : m ≤ n) :
    k.holds (onSide negative m) = true := by
  apply IntKind.holds_of_between held
  cases negative <;> simp only [onSide] <;> simp <;> omega

theorem accumulate_digits (k : IntKind) (negative : Bool) (cs : List Char) (m : Nat)
    (all : ∀ c ∈ cs, c.isDigit = true)
    (held : k.holds (onSide negative (Nat.ofDigitChars 10 cs m)) = true) :
    accumulate k negative (onSide negative m) cs =
      .ok (onSide negative (Nat.ofDigitChars 10 cs m)) := by
  induction cs generalizing m with
  | nil => rfl
  | cons c cs ih =>
      have head := all c List.mem_cons_self
      rw [Nat.ofDigitChars_cons] at held ⊢
      -- Each step is checked against the range; a prefix is no larger than the whole.
      have next := holds_onSide_of_le held (le_ofDigitChars cs _)
      simp only [accumulate, digit?_of_isDigit head, onSide_next, next, if_true]
      exact ih _ (fun c member => all c (List.mem_cons_of_mem _ member)) held

theorem digits_cons (n : Int) : ∃ c cs, digits n = c :: cs ∧ c.isDigit = true := by
  cases all : digits n with
  | nil => exact absurd all Nat.toDigits_ne_nil
  | cons c cs =>
      have member : c ∈ digits n := by simp [all]
      exact ⟨c, cs, rfl, Nat.isDigit_of_mem_toDigits (by decide) (by decide) member⟩

theorem accumulate_digits_natAbs {k : IntKind} {n : Int} (held : k.holds n = true) :
    accumulate k (decide (n < 0)) 0 (digits n) = .ok n := by
  have value : onSide (decide (n < 0)) (Nat.ofDigitChars 10 (digits n) 0) = n := by
    rw [Nat.ofDigitChars_ten_toDigits, onSide_natAbs]
  have run := accumulate_digits k (decide (n < 0)) (digits n) 0
    (fun c member => Nat.isDigit_of_mem_toDigits (by decide) (by decide) member)
    (by rw [value]; exact held)
  rw [value, onSide_zero] at run
  exact run

theorem readChars_of_digit {k : IntKind} {c : Char} {cs : List Char} (digit : c.isDigit = true) :
    readChars k (c :: cs) = accumulate k false 0 (c :: cs) := by
  unfold readChars
  split
  case h_1 eq => cases eq
  case h_2 eq | h_3 eq | h_4 eq | h_5 eq =>
    cases eq
    exact absurd digit (by decide)
  case h_6 => rfl

theorem read_text {k : IntKind} {n : Int} (held : k.holds n = true) : read k (text n) = .ok n := by
  have run := accumulate_digits_natAbs held
  obtain ⟨c, cs, all, digit⟩ := digits_cons n
  rw [read, toList_text]
  rw [all] at run ⊢
  by_cases neg : n < 0
  · have signed : k.signed = true := by
      cases signed : k.signed with
      | true => rfl
      | false => exact absurd (IntKind.nonneg_of_holds signed held) (Int.not_le.mpr neg)
    rw [decide_eq_true neg] at run
    rw [if_pos neg]
    simp only [readChars, signed, if_true]
    exact run
  · rw [decide_eq_false neg] at run
    rw [if_neg neg, readChars_of_digit digit]
    exact run

theorem isDigit_of_accumulate {k : IntKind} {negative : Bool} {cs : List Char} {acc n : Int}
    (read : accumulate k negative acc cs = .ok n) : ∀ c ∈ cs, c.isDigit = true := by
  induction cs generalizing acc with
  | nil => exact nofun
  | cons c cs ih =>
      cases shape : digit? c with
      | none =>
          simp only [accumulate, shape] at read
          cases read
      | some d =>
          have here : c.isDigit = true := by
            rw [digit?] at shape
            split at shape
            · assumption
            · cases shape
          simp only [accumulate, shape] at read
          generalize (if negative then acc * 10 - (d : Int) else acc * 10 + d) = next at read
          split at read
          · exact List.forall_mem_cons.mpr ⟨here, ih read⟩
          · cases read

/-- What an integer is read from is a sign or not, and digits. -/
theorem spells_of_readChars {k : IntKind} {cs : List Char} {n : Int}
    (read : readChars k cs = .ok n) :
    cs ≠ [] ∧ ∀ c ∈ cs, c = '+' ∨ c = '-' ∨ c.isDigit = true := by
  unfold readChars at read
  split at read
  case h_1 | h_2 | h_3 => cases read
  case h_4 cs _ =>
    have digits := isDigit_of_accumulate read
    exact ⟨nofun, List.forall_mem_cons.mpr
      ⟨.inl rfl, fun c member => .inr (.inr (digits c member))⟩⟩
  case h_5 cs _ =>
    split at read
    · have digits := isDigit_of_accumulate read
      exact ⟨nofun, List.forall_mem_cons.mpr
        ⟨.inr (.inl rfl), fun c member => .inr (.inr (digits c member))⟩⟩
    · cases read
  case h_6 some _ _ _ _ =>
    exact ⟨some, fun c member => .inr (.inr (isDigit_of_accumulate read c member))⟩

theorem digit_bounds {c : Char} (digit : c.isDigit = true) : 48 ≤ c.toNat ∧ c.toNat ≤ 57 :=
  Char.isDigit_iff_toNat.mp digit

theorem readChars_digit {c : Char} (digit : c.isDigit = true) :
    readChars .i64 [c] = .ok ((c.toNat - 48 : Nat) : Int) := by
  have bounds := digit_bounds digit
  have word : IntKind.i64.holds ((c.toNat - 48 : Nat) : Int) = true := by
    rw [IntKind.holds_i64_iff]
    omega
  simp [readChars_of_digit digit, accumulate, digit?, digit, word]

end Integer
end CacheFacade
