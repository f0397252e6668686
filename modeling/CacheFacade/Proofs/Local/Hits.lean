import CacheFacade.Proofs.Local.Vouching

/-!
No stale and no expired hit. Whatever is done with a local cache, and whatever its store drops, a
read that finds something finds what the last operation on the key or the field wrote there, before
the deadline that the operations gave it.
-/

namespace CacheFacade
namespace Local
namespace State

theorem touch_step (s : State) (d : Operation) : (s.step d).cache.touch = s.cache.touch := by
  have turn := s.cacheStep d
  generalize (s.step d).cache = c at turn ⊢
  cases turn with
  | act a => rw [s.cache.alike_run a]
  | _ => rfl

theorem renews_after (c : Config) (ops : List Operation) :
    Renews ((opened c).after ops).cache.touch := by
  induction ops with
  | nil =>
      intro d touch
      change (if c.touch then c.ttl else none) = some d at touch
      split at touch
      · simp only [Config.ttl] at touch
        split at touch
        · cases touch
        · rename_i positive
          cases touch
          simp only [Span.isZero, beq_iff_eq] at positive
          exact Nat.pos_of_ne_zero positive
      · cases touch
  | cons d past ih =>
      intro span touch
      exact ih span ((touch_step _ d).symm.trans touch)

theorem vouches_of_empty {c : Cache} {key : String} {history : List Effect} {due : Option Nat}
    (empty : c.store.entries = []) : c.Vouches key history due := by
  intro e member
  rw [empty] at member
  cases member

theorem vouches_step {s : State} {key : String} {past : List Operation}
    (h : (s.after past).cache.Vouches key (s.history key past) (s.due key past))
    (renews : Renews (s.after past).cache.touch) (d : Operation) :
    (s.after (d :: past)).cache.Vouches key (s.history key (d :: past)) (s.due key (d :: past)) := by
  cases d with
  | act a => exact h.run renews a
  | sleep span =>
      refine h.mono rfl (Nat.le_add_right ..) ?_
      exact fun e member _ => (Store.pass_sublist ..).subset member
  | lose gone =>
      refine h.mono rfl (Nat.le_refl _) ?_
      intro e member _
      exact (List.mem_filter.mp member).1
  | tryLock k =>
      refine h.mono ?_ ?_ ?_
      · simp only [after, step]
        split <;> rfl
      · simp only [after, step]
        split <;> exact Nat.le_refl _
      · intro e member _
        simp only [after, step] at member
        split at member <;> exact member
  | giveBack g =>
      refine h.mono ?_ ?_ ?_
      · simp only [after, step]
        split <;> rfl
      · simp only [after, step]
        split <;> exact Nat.le_refl _
      · intro e member _
        simp only [after, step] at member
        split at member <;> exact member
  | close => exact vouches_of_empty rfl
  | release =>
      simp only [history, effect?, due, after, step, Service.release]
      split
      · exact h
      · exact vouches_of_empty rfl

theorem vouches_after (c : Config) (key : String) (ops : List Operation) :
    ((opened c).after ops).cache.Vouches key ((opened c).history key ops)
      ((opened c).due key ops) := by
  induction ops with
  | nil => exact vouches_of_empty rfl
  | cons d past ih => exact vouches_step ih (renews_after c past) d

/-- What reads find in a state, with the effects that a key had, the last one first, and the
deadline that it was left with. -/
structure Truthful (s : State) (key : String) (history : List Effect) (due : Option Nat) : Prop where
  /-- A value is what was set last, or reads as the number that was counted last. -/
  value : ∀ v, (s.cache.get key).result = .ok (some v) →
    (history.head? = some (.value v) ∨ ∃ n, history.head? = some (.counter n) ∧
      (s.cache.codec.decode (Utf8.encode (Integer.text n))).toOption = some v) ∧
    ∀ d, due = some d → s.cache.now < d
  /-- A field holds what was written to it last, and nothing happened to its key since. -/
  field : ∀ f v, (s.cache.fieldGet key f).result = .ok (some v) →
    history.find? (·.concerns f) = some (.field f v) ∧ ∀ d, due = some d → s.cache.now < d
  fields : ∀ entries, (s.cache.fields key).result = .ok entries → ∀ f v, (f, v) ∈ entries →
    history.find? (·.concerns f) = some (.field f v) ∧ ∀ d, due = some d → s.cache.now < d

theorem truthful_of_vouches {s : State} {key : String} {history : List Effect} {due : Option Nat}
    (h : s.cache.Vouches key history due) : s.Truthful key history due := by
  refine ⟨?_, ?_, ?_⟩
  · intro v hit
    simp only [Cache.get, Except.ok.injEq] at hit
    cases seen : (s.cache.lookUp (s.cache.keys.qualify key)).1 with
    | none =>
        rw [seen] at hit
        cases hit
    | some item =>
        obtain ⟨told, live⟩ := h.found seen
        refine ⟨?_, live⟩
        rw [seen] at hit
        cases item with
        | value w =>
            cases hit
            exact .inl told
        | counter n => exact .inr ⟨n, told, hit⟩
        | hash _ => cases hit
  · intro f v hit
    simp only [Cache.fieldGet, Except.ok.injEq] at hit
    cases seen : (s.cache.lookUp (s.cache.keys.qualify key)).1 with
    | none =>
        rw [seen] at hit
        cases hit
    | some item =>
        obtain ⟨told, live⟩ := h.found seen
        refine ⟨?_, live⟩
        rw [seen] at hit
        cases item with
        | value _ | counter _ => cases hit
        | hash entries =>
            obtain ⟨before, after, rfl, -⟩ := List.lookup_eq_some_iff.mp hit
            exact told.2 (f, v) (List.mem_append_right _ List.mem_cons_self)
  · intro entries result f v member
    simp only [Cache.fields] at result
    generalize seen : s.cache.lookUp (s.cache.keys.qualify key) = found at result
    obtain ⟨_ | item, d⟩ := found
    · cases result
      cases member
    · obtain ⟨told, live⟩ := h.found (congrArg Prod.fst seen)
      cases item with
      | value _ | counter _ => cases result
      | hash _ =>
          cases result
          exact ⟨told.2 (f, v) member, live⟩

/-- In every run of a local cache, what reads find was written last and is not past its deadline. -/
theorem truthful_after (c : Config) (ops : List Operation) (key : String) :
    ((opened c).after ops).Truthful key ((opened c).history key ops) ((opened c).due key ops) :=
  truthful_of_vouches (vouches_after c key ops)

example :
    (((opened (.ofCodec "users" (.described .plain .text))).after
      [.act (.fieldSet "alice" "role" (.text "admin")),
        .act (.fieldSet "alice" "role" (.text "guest"))]).cache.fieldGet "alice" "role").result =
      .ok (some (.text "admin")) := by
  rfl

end State
end Local
end CacheFacade
