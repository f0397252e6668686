import CacheFacade.Proofs.Json.Scan
import CacheFacade.Proofs.Numeral.Integer
import CacheFacade.Proofs.Text.Utf8

/-!
Integers of documents. The decimal text of an integer that fits 64 bits, with or without a sign, is
read as that integer, exactly; so is that of an integer of 128 bits by a type that asks for one.
-/

namespace CacheFacade
namespace Json

open Scan

/-- Integers that documents keep exact. -/
def IsWord (n : Int) : Prop := IntKind.i64.holds n = true ∨ IntKind.u64.holds n = true

theorem isWord_iff {n : Int} : IsWord n ↔ -9223372036854775808 ≤ n ∧ n < 18446744073709551616 := by
  rw [IsWord, IntKind.holds_i64_iff, IntKind.holds_u64_iff]
  omega

theorem ne_of_start {b c : UInt8} (start : (b == 45 || isDigit b) = true)
    (stop : (c == 45 || isDigit c) = false) : b ≠ c := by
  rintro rfl
  rw [start] at stop
  cases stop

theorem isBlankByte_of_start {b : UInt8} (start : (b == 45 || isDigit b) = true) :
    isBlankByte b = false := by
  simp only [isBlankByte, Bool.or_eq_false_iff, beq_eq_false_iff_ne]
  exact ⟨⟨⟨ne_of_start start rfl, ne_of_start start rfl⟩, ne_of_start start rfl⟩,
    ne_of_start start rfl⟩

namespace Number

theorem digit?_byte {c : Char} (digit : c.isDigit = true) :
    digit? (Utf8.byte c) = some (c.toNat - '0'.toNat) := by
  have range := Integer.digit_bounds digit
  have width := Utf8.toNat_byte (c := c) (by omega)
  have inside : (48 ≤ Utf8.byte c && Utf8.byte c ≤ 57) = true := by
    simp only [UInt8.le_iff_toNat_le, width, Bool.and_eq_true, decide_eq_true_eq]
    exact range
  rw [digit?, if_pos inside, width]
  rfl

theorem isDigit_byte {c : Char} (digit : c.isDigit = true) : isDigit (Utf8.byte c) = true := by
  have found := digit?_byte digit
  unfold digit? at found
  split at found
  · assumption
  · cases found

theorem isDigit_of_mem {m : Nat} {c : Char} (member : c ∈ Nat.toDigits 10 m) : c.isDigit = true :=
  Nat.isDigit_of_mem_toDigits (by decide) (by decide) member

def digitBytes (m : Nat) : Bytes := (Nat.toDigits 10 m).map Utf8.byte

theorem encode_text (n : Int) :
    Utf8.encode (Integer.text n) =
      (if n < 0 then 45 :: digitBytes n.natAbs else digitBytes n.natAbs) := by
  have digits := Utf8.flatMap_of_ascii (Nat.toDigits 10 n.natAbs) fun c member => by
    have := Integer.digit_bounds (isDigit_of_mem member)
    omega
  rw [Utf8.encode_eq_flatMap, Integer.toList_text]
  split
  · rw [List.flatMap_cons, digits]
    rfl
  · exact digits

theorem bounds_of_mem_digitBytes {m : Nat} {b : UInt8} (member : b ∈ digitBytes m) :
    45 ≤ b.toNat ∧ b.toNat < 92 := by
  obtain ⟨c, inside, rfl⟩ := List.mem_map.mp member
  have range := Integer.digit_bounds (isDigit_of_mem inside)
  rw [Utf8.toNat_byte (by omega)]
  omega

theorem digitBytes_cons (m : Nat) : ∃ b bs, digitBytes m = b :: bs ∧ isDigit b = true := by
  obtain ⟨c, cs, eq, digit⟩ := Integer.digits_cons m
  refine ⟨Utf8.byte c, cs.map Utf8.byte, ?_, ?_⟩
  · rw [digitBytes, ← List.map_cons, ← eq]
    rfl
  · exact isDigit_byte digit

theorem absorb_digits {limit : Nat} {rest : Bytes} (ends : Ends rest) (cs : List Char)
    (acc count : Nat) (all : ∀ c ∈ cs, c.isDigit = true)
    (below : Nat.ofDigitChars 10 cs acc < limit) :
    absorb limit acc count (cs.map Utf8.byte ++ rest) =
      ((Nat.ofDigitChars 10 cs acc, count + cs.length, false), rest) := by
  induction cs generalizing acc count with
  | nil =>
      cases rest with
      | nil => rfl
      | cons b rest =>
          have stop : digit? b = none := by
            have := (ends b rfl).1
            simpa [digit?, isDigit] using this
          simp [absorb, stop]
  | cons c cs ih =>
      have digit := digit?_byte (all c List.mem_cons_self)
      rw [Nat.ofDigitChars_cons, Nat.mul_comm] at below
      have step := Nat.lt_of_le_of_lt (Integer.le_ofDigitChars cs _) below
      rw [List.map_cons, List.cons_append, absorb, digit]
      simp only [if_pos step]
      rw [ih _ _ (fun c member => all c (List.mem_cons_of_mem _ member)) below,
        Nat.ofDigitChars_cons, Nat.mul_comm 10, List.length_cons, Nat.add_assoc, Nat.add_comm 1]

theorem absorbing_digits (limit : Nat) {rest : Bytes} (ends : Ends rest) (cs : List Char)
    (acc : Nat) (all : ∀ c ∈ cs, c.isDigit = true) (below : Nat.ofDigitChars 10 cs acc < limit) :
    absorbing limit acc (cs.map Utf8.byte ++ rest) =
      .done (Nat.ofDigitChars 10 cs acc, 0 + cs.length, false) rest := by
  rw [absorbing, absorb_digits ends cs acc 0 all below]

theorem exists_lead {m : Nat} (pos : 0 < m) :
    ∃ c cs d, Nat.toDigits 10 m = c :: cs ∧ c.toNat - '0'.toNat = d + 1 := by
  induction m using Nat.strongRecOn with
  | ind m ih =>
      by_cases small : m < 10
      · refine ⟨m.digitChar, [], m - 1, Nat.toDigits_of_lt_base small, ?_⟩
        rw [Nat.toNat_digitChar_of_lt_ten small]
        change 48 + m - 48 = _
        omega
      · obtain ⟨c, cs, d, eq, lead⟩ := ih (m / 10) (by omega) (by omega)
        refine ⟨c, cs ++ [(m % 10).digitChar], d, ?_, lead⟩
        rw [Nat.toDigits_of_base_le (by decide) (by omega), eq]
        rfl

theorem peek_digit?_of_ends {rest : Bytes} (ends : Ends rest) : rest.head?.bind digit? = none := by
  cases rest with
  | nil => rfl
  | cons b rest =>
      have := (ends b rfl).1
      simpa [digit?, isDigit] using this

/-- The digits of a number above zero: the first one, and what the others make of it. -/
theorem exists_lead_ofDigitChars {m : Nat} (pos : 0 < m) :
    ∃ c cs d, digitBytes m = Utf8.byte c :: cs.map Utf8.byte ∧ digit? (Utf8.byte c) = some (d + 1) ∧
      (∀ x ∈ cs, x.isDigit = true) ∧ Nat.ofDigitChars 10 cs (d + 1) = m := by
  obtain ⟨c, cs, d, eq, lead⟩ := exists_lead pos
  have all : ∀ x ∈ c :: cs, x.isDigit = true := by
    rw [← eq]
    exact fun x member => isDigit_of_mem member
  have value : Nat.ofDigitChars 10 cs (d + 1) = m := by
    have whole := Nat.ofDigitChars_ten_toDigits (n := m)
    rwa [eq, Nat.ofDigitChars_cons, Nat.mul_zero, Nat.zero_add, lead] at whole
  refine ⟨c, cs, d, ?_, ?_, fun x member => all x (List.mem_cons_of_mem _ member), value⟩
  · rw [digitBytes, eq, List.map_cons]
  · rw [digit?_byte (all c List.mem_cons_self), lead]

theorem unsigned_digitBytes {m : Nat} (fits : m < wordLimit) (negative : Bool) {rest : Bytes}
    (ends : Ends rest) :
    unsigned negative (digitBytes m ++ rest) = afterInteger negative m rest := by
  obtain rfl | pos := Nat.eq_zero_or_pos m
  · have zero : digitBytes 0 = [48] := by decide
    have stop := peek_digit?_of_ends ends
    rw [zero, List.singleton_append]
    unfold unsigned
    simp [digit?, stop]
  · obtain ⟨c, cs, d, bytes, lead, digits, value⟩ := exists_lead_ofDigitChars pos
    have absorbed := absorbing_digits wordLimit ends cs (d + 1) digits (by rw [value]; exact fits)
    rw [bytes, List.cons_append]
    unfold unsigned
    rw [bind_next]
    simp only [List.head?_cons, List.tail_cons, lead]
    rw [bind_of_done absorbed, value]
    rfl

theorem afterInteger_of_ends {rest : Bytes} (ends : Ends rest) (negative : Bool) (m : Nat) :
    afterInteger negative m rest =
      (if !negative then pure (.int m)
      else if m = 0 ∨ Nat.pow 2 63 < m then do return .float (← ofParts true m 0)
      else pure (.int (-m)) : Scan Number) rest := by
  unfold afterInteger
  rw [bind_peek]
  cases rest with
  | nil => rfl
  | cons b rest =>
      obtain ⟨-, point, mark⟩ := ends b rfl
      simp [point, mark]

theorem scan_text {n : Int} (word : IsWord n) :
    scan.Takes (Utf8.encode (Integer.text n)) (.int n) := by
  intro rest ends
  obtain ⟨low, high⟩ := isWord_iff.mp word
  rw [encode_text]
  unfold scan
  rw [bind_peek]
  by_cases neg : n < 0
  · have fits : n.natAbs < wordLimit := by
      change n.natAbs < 18446744073709551616
      omega
    rw [if_pos neg]
    change unsigned true (digitBytes n.natAbs ++ rest) = _
    rw [unsigned_digitBytes fits true ends, afterInteger_of_ends ends]
    have small : ¬ (n.natAbs = 0 ∨ Nat.pow 2 63 < n.natAbs) := by
      change ¬ (n.natAbs = 0 ∨ 9223372036854775808 < n.natAbs)
      omega
    rw [Bool.not_true, if_neg Bool.false_ne_true, if_neg small, pure_apply]
    congr 2
    omega
  · have fits : n.natAbs < wordLimit := by
      change n.natAbs < 18446744073709551616
      omega
    rw [if_neg neg]
    obtain ⟨b, bs, eq, digit⟩ := digitBytes_cons n.natAbs
    have noSign : ((digitBytes n.natAbs ++ rest).head? == some 45) = false := by
      rw [eq, beq_eq_false_iff_ne]
      rintro ⟨⟩
      cases digit
    rw [noSign, if_neg Bool.false_ne_true, unsigned_digitBytes fits false ends,
      afterInteger_of_ends ends, Bool.not_false, if_pos rfl, pure_apply]
    congr 2
    omega

theorem moreDigits_digits {rest : Bytes} (ends : Ends rest) (cs : List Char) (m : Nat)
    (all : ∀ c ∈ cs, c.isDigit = true) :
    moreDigits m (cs.map Utf8.byte ++ rest) = .done (Nat.ofDigitChars 10 cs m) rest := by
  induction cs generalizing m with
  | nil =>
      cases rest with
      | nil => rfl
      | cons b rest => simp [moreDigits, (ends b rfl).1, Nat.ofDigitChars]
  | cons c cs ih =>
      have digit := all c List.mem_cons_self
      have width := Utf8.toNat_byte (c := c) (by have := Integer.digit_bounds digit; omega)
      have tail := ih (10 * m + (c.toNat - 48)) fun x member => all x (List.mem_cons_of_mem _ member)
      rw [Nat.ofDigitChars_cons]
      simp only [moreDigits, List.map_cons, List.cons_append, isDigit_byte digit,
        List.takeWhile_cons_of_pos, List.dropWhile_cons_of_pos, List.foldl_cons, width,
        Nat.mul_comm m 10] at tail ⊢
      exact tail

theorem wholeDigits_digitBytes (m : Nat) : wholeDigits.Takes (digitBytes m) m := by
  intro rest ends
  obtain rfl | pos := Nat.eq_zero_or_pos m
  · have zero : digitBytes 0 = [48] := by decide
    have stop := peek_digit?_of_ends ends
    rw [zero, List.singleton_append]
    unfold wholeDigits
    simp [digit?, stop]
  · obtain ⟨c, cs, d, bytes, lead, digits, value⟩ := exists_lead_ofDigitChars pos
    rw [bytes, List.cons_append]
    unfold wholeDigits
    rw [bind_next]
    simp only [List.head?_cons, List.tail_cons, lead]
    rw [moreDigits_digits ends cs (d + 1) digits, value]

/-- An integer of any width is read from its text by a type of 128 bits that holds it. -/
theorem wide_text {k : IntKind} {n : Int} (held : k.holds n = true) :
    (wide k).Takes (Utf8.encode (Integer.text n)) n := by
  intro rest ends
  have digits := wholeDigits_digitBytes n.natAbs rest ends
  rw [encode_text]
  by_cases neg : n < 0
  · have signed : k.signed = true := by
      cases signed : k.signed with
      | true => rfl
      | false => exact absurd (IntKind.nonneg_of_holds signed held) (Int.not_le.mpr neg)
    have value : -(n.natAbs : Int) = n := by omega
    rw [if_pos neg, List.cons_append]
    unfold wide
    rw [bind_blanks, dropBlanks_cons rfl]
    simp only [List.head?_cons, signed, if_true]
    rw [bind_skip, List.tail_cons, bind_of_done digits, value, held]
    rfl
  · have value : (n.natAbs : Int) = n := by omega
    obtain ⟨b, bs, bytes, digit⟩ := digitBytes_cons n.natAbs
    rw [if_neg neg]
    rw [bytes, List.cons_append] at digits ⊢
    have solid := isBlankByte_of_start (b := b) (by simp [digit])
    have noSign : b ≠ 45 := by
      rintro rfl
      cases digit
    unfold wide
    rw [bind_blanks, dropBlanks_cons solid]
    simp only [List.head?_cons]
    rw [bind_of_done digits, value, held]
    rfl

end Number
end Json
end CacheFacade
