import CacheFacade.Json.Bracket

/-!
Scans as they run: what the small scans do to the bytes, and how a run of two scans in a row is put
together and taken apart. A scan takes a value from its text if it stops right behind that text,
whatever follows, as long as no number could go on there.
-/

namespace CacheFacade
namespace Json
namespace Scan

variable {α β : Type} {bs rest : Bytes}

@[simp] theorem pure_apply (a : α) (bs : Bytes) : (pure a : Scan α) bs = .done a bs := rfl

@[simp] theorem bind_peek (f : Option UInt8 → Scan β) (bs : Bytes) :
    (peek >>= f) bs = f bs.head? bs := rfl

@[simp] theorem bind_skip (f : Unit → Scan β) (bs : Bytes) : (skip >>= f) bs = f () bs.tail := rfl

@[simp] theorem bind_next (f : Option UInt8 → Scan β) (bs : Bytes) :
    (next >>= f) bs = f bs.head? bs.tail := rfl

@[simp] theorem bind_blanks (f : Option UInt8 → Scan β) (bs : Bytes) :
    (blanks >>= f) bs = f (dropBlanks bs).head? (dropBlanks bs) := rfl

theorem bind_of_done {s : Scan α} {a : α} (run : s bs = .done a rest) (f : α → Scan β) :
    (s >>= f) bs = f a rest := by
  change Scan.bind s f bs = _
  rw [Scan.bind, run]

/-- A run of two scans in a row stops where the second one does. -/
theorem exists_of_bind {s : Scan α} {f : α → Scan β} {b : β} (run : (s >>= f) bs = .done b rest) :
    ∃ a mid, s bs = .done a mid ∧ f a mid = .done b rest := by
  change Scan.bind s f bs = _ at run
  rw [Scan.bind] at run
  split at run
  · exact ⟨_, _, ‹_›, run⟩
  · cases run
  · cases run

theorem of_pure {a b : α} (run : (pure a : Scan α) bs = .done b rest) : a = b ∧ bs = rest := by
  rw [pure_apply] at run
  exact Outcome.done.inj run

theorem of_ite {c : Prop} [Decidable c] {s t : Scan α} {a : α}
    (run : (if c then s else t : Scan α) bs = .done a rest) :
    c ∧ s bs = .done a rest ∨ ¬ c ∧ t bs = .done a rest := by
  by_cases h : c
  · rw [if_pos h] at run
    exact .inl ⟨h, run⟩
  · rw [if_neg h] at run
    exact .inr ⟨h, run⟩

theorem dropBlanks_cons {b : UInt8} (solid : isBlankByte b = false) (bs : Bytes) :
    dropBlanks (b :: bs) = b :: bs := by
  rw [dropBlanks, List.dropWhile_cons_of_neg (by simp [solid])]

theorem dropBlanks_eq_cons {b : UInt8} {tail : Bytes} (left : dropBlanks bs = b :: tail) :
    isBlankByte b = false := by
  have head := List.head?_dropWhile_not isBlankByte bs
  rw [dropBlanks] at left
  rw [left] at head
  simpa using head

theorem length_dropBlanks_le (bs : Bytes) : (dropBlanks bs).length ≤ bs.length :=
  (List.dropWhile_suffix _).length_le

theorem run_of_done {s : Scan α} {a : α} (run : s bs = .done a []) : s.run bs = .ok a := by
  rw [Scan.run, run]
  rfl

theorem exists_of_run {s : Scan α} {a : α} (run : s.run bs = .ok a) :
    ∃ rest, s bs = .done a rest := by
  unfold Scan.run at run
  cases result : s bs with
  | done b rest =>
      rw [result] at run
      simp only at run
      split at run
      · cases run
        exact ⟨rest, rfl⟩
      · cases run
  | refused c rest =>
      rw [result] at run
      cases run
  | failed f n =>
      rw [result] at run
      cases run

end Scan

/-- Bytes with which no number goes on. -/
def Ends (rest : Bytes) : Prop :=
  ∀ b, rest.head? = some b → isDigit b = false ∧ b ≠ 46 ∧ Number.isExponentMark (some b) = false

theorem ends_nil : Ends [] := nofun

theorem ends_cons {b : UInt8} (stop : isDigit b = false) (point : b ≠ 46)
    (mark : Number.isExponentMark (some b) = false) (rest : Bytes) : Ends (b :: rest) := by
  intro c head
  obtain rfl := Option.some.inj head
  exact ⟨stop, point, mark⟩

theorem ends_comma (rest : Bytes) : Ends (44 :: rest) := ends_cons rfl (by decide) rfl rest

theorem ends_closeList (rest : Bytes) : Ends (93 :: rest) := ends_cons rfl (by decide) rfl rest

theorem ends_closeObject (rest : Bytes) : Ends (125 :: rest) := ends_cons rfl (by decide) rfl rest

/-- A scan takes a value from its text, and nothing of what follows. -/
def Scan.Takes {α : Type} (s : Scan α) (text : Bytes) (a : α) : Prop :=
  ∀ rest, Ends rest → s (text ++ rest) = .done a rest

end Json
end CacheFacade
