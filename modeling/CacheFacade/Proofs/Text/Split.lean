import CacheFacade.Text.Split

/-!
Texts taken apart at a mark: the first occurrence of a mark, and the parts between the occurrences
of a character.
-/

namespace CacheFacade
namespace Split

/-- The mark stands between the two parts of the text, and nowhere before that. -/
structure IsFirst (mark before after text : List Char) : Prop where
  parts : text = before ++ mark ++ after
  first : ∀ front back, text = front ++ mark ++ back → before.length ≤ front.length

variable {mark before after cs : List Char}

theorem first?_of_begins (begins : mark <+: cs) :
    first? mark cs = some ([], cs.drop mark.length) := by
  cases cs with
  | nil =>
      obtain rfl := List.prefix_nil.mp begins
      rfl
  | cons c cs => rw [first?, if_pos (List.isPrefixOf_iff_prefix.mpr begins)]

theorem first?_cons_of_not_begins {c : Char} (other : ¬ mark <+: c :: cs) :
    first? mark (c :: cs) = (first? mark cs).map fun p => (c :: p.1, p.2) := by
  rw [first?, if_neg (mt List.isPrefixOf_iff_prefix.mp other)]

theorem first?_of_isFirst (isFirst : IsFirst mark before after cs) :
    first? mark cs = some (before, after) := by
  obtain ⟨rfl, first⟩ := isFirst
  induction before with
  | nil =>
      rw [List.nil_append, first?_of_begins (List.prefix_append _ _), List.drop_left]
  | cons c before ih =>
      have other : ¬ mark <+: c :: (before ++ mark ++ after) := by
        rintro ⟨back, eq⟩
        exact absurd (first [] back eq.symm) (by simp)
      rw [List.cons_append, List.cons_append, first?_cons_of_not_begins other, ih]
      · rfl
      · intro front back eq
        have longer := first (c :: front) back (by simp [eq])
        exact Nat.le_of_succ_le_succ longer

theorem isFirst_of_first? (found : first? mark cs = some (before, after)) :
    IsFirst mark before after cs := by
  induction cs generalizing before with
  | nil =>
      unfold first? at found
      split at found
      case isTrue empty =>
        cases found
        exact ⟨by simp [List.isEmpty_iff.mp empty], fun _ _ _ => Nat.zero_le _⟩
      case isFalse => cases found
  | cons c cs ih =>
      by_cases begins : mark <+: c :: cs
      · rw [first?_of_begins begins] at found
        cases found
        exact ⟨(List.prefix_iff_eq_append.mp begins).symm, fun _ _ _ => Nat.zero_le _⟩
      · rw [first?_cons_of_not_begins begins] at found
        obtain ⟨⟨front, back⟩, later, same⟩ := Option.map_eq_some_iff.mp found
        cases same
        obtain ⟨parts, first⟩ := ih later
        refine ⟨by rw [parts]; rfl, ?_⟩
        intro front' back' eq
        cases front' with
        | nil => exact absurd ⟨back', eq.symm⟩ begins
        | cons d front' =>
            obtain ⟨rfl, rest⟩ := List.cons.inj eq
            exact Nat.succ_le_succ (first front' back' rest)

theorem isSome_first?_iff : (first? mark cs).isSome ↔ mark <:+: cs := by
  induction cs with
  | nil => simp [first?]
  | cons c cs ih =>
      rw [List.infix_cons_iff, ← ih]
      by_cases begins : mark <+: c :: cs
      · simp [first?_of_begins begins, begins]
      · simp [first?_cons_of_not_begins begins, begins]

theorem first?_append_cons {c : Char} (absent : c ∉ before) :
    first? [c] (before ++ c :: after) = some (before, after) := by
  apply first?_of_isFirst
  refine ⟨by simp, ?_⟩
  intro front back eq
  -- Were there an earlier occurrence, the text before this one would hold the character.
  refine Nat.le_of_not_lt fun inside => ?_
  have here := congrArg (fun cs => cs[front.length]?) eq
  simp only [List.append_assoc, List.singleton_append, List.getElem?_append_left inside,
    List.getElem?_append_right (Nat.le_refl _), Nat.sub_self, List.getElem?_cons_zero] at here
  exact absent (List.mem_of_getElem? here)

theorem first?_of_notMem {c : Char} (absent : c ∉ cs) : first? [c] cs = none := by
  rw [← Option.not_isSome_iff_eq_none, isSome_first?_iff]
  exact fun inside => absent (inside.subset (List.mem_singleton_self c))

/-- A character that is found first parts a text in what is before it and what is behind it. -/
theorem getD_first? (c : Char) (cs : List Char) :
    (first? [c] cs).getD (cs, []) =
      (cs.takeWhile (· != c), (cs.dropWhile (· != c)).drop 1) := by
  induction cs with
  | nil => rfl
  | cons d cs ih =>
      by_cases same : d = c
      · subst same
        have begins : [d] <+: d :: cs := List.prefix_append [d] cs
        simp [first?_of_begins begins]
      · have other : ¬ [c] <+: d :: cs := fun begins =>
          same (List.cons_prefix_cons.mp begins).1.symm
        rw [first?_cons_of_not_begins other, List.takeWhile_cons_of_pos (by simpa using same),
          List.dropWhile_cons_of_pos (by simpa using same)]
        cases found : first? [c] cs with
        | none | some parts =>
            rw [found] at ih
            exact congrArg (fun p => (d :: p.1, p.2)) ih

/-- A mark is in one of the parts around a character that it does not hold. -/
theorem infix_append_cons_iff {c : Char} (absent : c ∉ mark) :
    mark <:+: before ++ c :: after ↔ mark <:+: before ∨ mark <:+: after := by
  constructor
  · intro inside
    obtain left | right | ⟨front, back, rfl, tail, head⟩ := List.infix_append_iff.mp inside
    · exact .inl left
    · obtain begins | later := List.infix_cons_iff.mp right
      · cases mark with
        | nil => exact .inl (List.nil_infix)
        | cons d mark =>
            exact absurd (List.cons_prefix_cons.mp begins).1.symm
              (List.ne_of_not_mem_cons absent)
      · exact .inr later
    · cases back with
      | nil => exact .inl (by simpa using tail.isInfix)
      | cons d back =>
          have same : d = c := (List.cons_prefix_cons.mp head).1
          exact absurd (by simp [same]) absent
  · rintro (left | right)
    · exact left.trans (List.prefix_append _ _).isInfix
    · exact (List.infix_cons right).trans (List.suffix_append _ _).isInfix

/-- The parts between the occurrences of a character are those of the library. -/
theorem every_eq_splitOn (sep : Char) (cs : List Char) : every sep cs = cs.splitOn sep := by
  induction cs with
  | nil => rfl
  | cons c cs ih =>
      rw [List.splitOn_eq_splitOnP, List.splitOnP_cons_eq_if_modifyHead,
        ← List.splitOn_eq_splitOnP, ← ih, every]
      cases parts : every sep cs with
      | nil =>
          rw [ih, List.splitOn_eq_splitOnP] at parts
          exact absurd parts (List.splitOnP_ne_nil _ _)
      | cons g gs => rfl

end Split
end CacheFacade
