import CacheFacade.Proofs.Local.Turns

/-!
Every operation leaves the histories of all keys true: what it writes goes on with the history of the
key, and of what it removes nothing is left that the history would have to tell of.
-/

namespace CacheFacade
namespace Local
namespace Cache

variable {c : Cache} {key : String} {history : List Effect} {due : Option Nat}

theorem live_lookUp (renews : Renews c.touch) {k : String}
    (found : (c.store.live? k c.now).isSome = true) :
    ∃ old, (c.lookUp k).2.store.find? k = some old ∧ old.isLive c.now = true := by
  obtain ⟨e, live⟩ := Option.isSome_iff_exists.mp found
  exact ⟨_, Store.find?_read_of_live? live,
    Store.isLive_touched renews (Store.mem_of_live? live).2.2⟩

theorem Vouches.rewrite (h : c.Vouches key history due) (renews : Renews c.touch) {item : Item}
    {life : Expiry} {new : List Effect} (told : Tells new item) (found : life = .keep → c.finds key = true) :
    ((c.lookUp (c.keys.qualify key)).2.put (c.keys.qualify key) item life).Vouches key new
      (life.deadline c.now (touched c.now c.touch due)) :=
  h.lookUp.put told fun keep => live_lookUp renews (found keep)

/-- A field that is written to a hash tells of itself, and the others stay as they are. -/
theorem tells_insertEntry {field : String} {v : Val} {fields : List (String × Val)}
    (told : Tells history (.hash fields)) :
    Tells (.field field v :: history) (.hash (Document.insertEntry field v fields)) := by
  refine ⟨sorted_insertEntry field v told.1, ?_⟩
  intro f hf
  obtain rfl | ⟨old, other⟩ := mem_insertEntry told.1 hf
  · simp [Effect.concerns]
  · have passes : Effect.concerns f.1 (.field field v) = false :=
      beq_eq_false_iff_ne.mpr (Ne.symm other)
    rw [List.find?_cons, passes]
    exact told.2 f old

theorem tells_nil : Tells history (.hash []) := by
  refine ⟨List.Pairwise.nil, ?_⟩
  intro f hf
  cases hf

theorem tells_filter (names : List String) {fields : List (String × Val)}
    (told : Tells history (.hash fields)) :
    Tells (.unfield names :: history) (.hash (fields.filter fun f => !names.contains f.1)) := by
  refine ⟨told.1.sublist List.filter_sublist, ?_⟩
  intro f hf
  obtain ⟨member, stays⟩ := List.mem_filter.mp hf
  have passes : Effect.concerns f.1 (.unfield names) = false := by
    simpa [Effect.concerns] using stays
  rw [List.find?_cons, passes]
  exact told.2 f member

theorem Makes.tells {found : Option Item} {e : Effect} {item : Item} (made : Makes found e item)
    (told : ∀ old, found = some old → Tells history old) : Tells (e :: history) item := by
  cases made with
  | counter n => rfl
  | field name v there =>
      apply tells_insertEntry
      obtain ⟨-, rfl⟩ | there := there
      · exact tells_nil
      · exact told _ there
  | unfield names there left => exact tells_filter names (told _ there)

theorem mem_removeAll {keys : List String} {e : Entry Item}
    (h : e ∈ (removeAll keys c).2.store.entries) : e ∈ c.store.entries ∧ e.key ∉ keys := by
  induction keys generalizing c with
  | nil => exact ⟨h, List.not_mem_nil⟩
  | cons k keys ih =>
      obtain ⟨member, others⟩ := ih (c := c.evict k) h
      obtain ⟨old, other⟩ := Store.mem_remove.mp member
      refine ⟨old, ?_⟩
      intro named
      obtain same | later := List.mem_cons.mp named
      · exact other same
      · exact others later

theorem Vouches.run (h : c.Vouches key history due) (renews : Renews c.touch)
    (a : Action) :
    (c.run a).state.Vouches key ((c.effect? key a).toList ++ history) (c.dueAfter key a due) := by
  by_cases named : key ∈ a.keys
  · have own : ∀ {k : String}, a.keys = [k] → key = k := by
      intro k single
      exact List.mem_singleton.mp (single ▸ named)
    have keys : (c.run a).state.keys = c.keys := by rw [c.alike_run]
    have turn := c.turn_run a
    generalize (c.run a).state = d at keys turn ⊢
    cases turn with
    | idle effects looks =>
        rw [dueAfter, effects, looks]
        exact h
    | seen single looks none =>
        cases own single
        rw [dueAfter, looks, none]
        exact h.lookUp
    -- Nothing was found, so no live entry of the key is there to be vouched for.
    | missed single looks effect keeps missing =>
        cases own single
        intro e member same live
        exact absurd same (key_ne_of_missing missing member live)
    | put single looks effect fresh =>
        cases own single
        rw [dueAfter, looks, effect]
        exact h.put rfl fun keep => absurd keep fresh
    | rewritten single looks effect made found =>
        cases own single
        rw [dueAfter, looks, effect]
        have told := made.tells fun old there => (h.found there).1
        exact h.rewrite renews told found
    | emptied single looks effect there left =>
        cases own single
        exact vouches_evict (c.lookUp (c.keys.qualify key)).2 key _ _
    | removed effects looks =>
        intro e member same
        rw [keys] at same
        exact absurd (same ▸ List.mem_map_of_mem named) (mem_removeAll member).2
  · obtain ⟨none, looks⟩ := spared_of_not_named (c := c) named
    rw [dueAfter, none, looks]
    apply h.works (c.works_run a)
    intro other
    obtain ⟨k, hk, same⟩ := List.mem_map.mp other
    exact named (KeySpace.qualify_injective _ same ▸ hk)

end Cache
end Local
end CacheFacade
