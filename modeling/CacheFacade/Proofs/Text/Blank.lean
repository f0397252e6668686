import CacheFacade.Text.Blank
import Mathlib.Data.List.TakeWhile

/-!
Texts without the white space at their ends. Digits are no white space, so a text that ends with one
loses white space before it only.
-/

namespace CacheFacade

theorem isBlank_of_isDigit {c : Char} (digit : c.isDigit = true) : isBlank c = false := by
  have bounds : 48 ≤ c.toNat ∧ c.toNat ≤ 57 := Char.isDigit_iff_toNat.mp digit
  simp only [isBlank, Bool.or_eq_false_iff, Bool.and_eq_false_iff, decide_eq_false_iff_not,
    beq_eq_false_iff_ne]
  omega

namespace Blank

theorem dropWhile_of_head {cs : List Char} (front : ∀ c ∈ cs.head?, isBlank c = false) :
    cs.dropWhile isBlank = cs := by
  cases cs with
  | nil => rfl
  | cons c cs => exact List.dropWhile_cons_of_neg (by simp [front c rfl])

theorem trimChars_of_ends {cs : List Char} (front : ∀ c ∈ cs.head?, isBlank c = false)
    (back : ∀ c ∈ cs.getLast?, isBlank c = false) : trimChars cs = cs := by
  rw [trimChars, dropWhile_of_head front, dropWhile_of_head (by simpa using back),
    List.reverse_reverse]

theorem trimChars_of_unblank {cs : List Char} (unblank : ∀ c ∈ cs, isBlank c = false) :
    trimChars cs = cs :=
  trimChars_of_ends (fun c first => unblank c (List.mem_of_head? first))
    fun c last => unblank c (List.mem_of_getLast? last)

theorem isBlank_getLast?_trimChars {cs : List Char} :
    ∀ c ∈ (trimChars cs).getLast?, isBlank c = false := by
  intro c last
  rw [trimChars, List.getLast?_reverse] at last
  have stops := List.head?_dropWhile_not isBlank (cs.dropWhile isBlank).reverse
  rwa [Option.mem_def.mp last] at stops

/-- A text that ends with something else loses white space before it only. -/
theorem trimChars_concat (cs : List Char) {c : Char} (unblank : isBlank c = false) :
    trimChars (cs ++ [c]) = cs.dropWhile isBlank ++ [c] := by
  have front : (cs ++ [c]).dropWhile isBlank = cs.dropWhile isBlank ++ [c] := by
    induction cs with
    | nil => exact List.dropWhile_cons_of_neg (by simp [unblank])
    | cons d cs ih =>
        by_cases blank : isBlank d = true
        · rw [List.cons_append, List.dropWhile_cons_of_pos blank,
            List.dropWhile_cons_of_pos blank, ih]
        · rw [List.cons_append, List.dropWhile_cons_of_neg blank, List.dropWhile_cons_of_neg blank]
          rfl
  rw [trimChars, front, List.reverse_append, List.reverse_singleton, List.singleton_append,
    List.dropWhile_cons_of_neg (by simp [unblank]), List.reverse_cons, List.reverse_reverse]

theorem mem_of_mem_trimChars {cs : List Char} {c : Char} (member : c ∈ trimChars cs) : c ∈ cs := by
  rw [trimChars, List.mem_reverse] at member
  have shorter := (List.dropWhile_suffix _).mem member
  exact (List.dropWhile_suffix _).mem (List.mem_reverse.mp shorter)

end Blank

end CacheFacade
