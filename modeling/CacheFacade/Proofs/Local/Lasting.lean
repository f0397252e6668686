import CacheFacade.Proofs.Local.Deadlines

/-!
How long entries last in a local cache that does not touch. The deadline of an entry is the one that
was fixed last by an operation that chose a lifetime, and nothing else moves it. From it on no
operation finds the entry; but it stands in the store until the timer turns, and what removes it
tells that something was there.
-/

namespace CacheFacade
namespace Local

namespace Cache

variable {c : Cache} {key : String} {e : Entry Item}

/-- No look finds anything under the key: reads miss, a number starts at zero, and a field makes a
new hash. -/
structure Lacks (c : Cache) (key : String) : Prop where
  get : (c.get key).result = .ok none
  fieldGet : ∀ field, (c.fieldGet key field).result = .ok none
  fields : (c.fields key).result = .ok []
  fieldTtl : ∀ field, (c.fieldTtl key field).result = .ok .missing
  fieldDelete : ∀ names, (c.fieldDelete key names).result = .ok () ∧
    ∀ e, ¬ (c.fieldDelete key names).state.Holds key e
  increment : ∀ delta, IntKind.i64.holds delta = true → (c.increment key delta).result = .ok delta ∧
    ∀ e, (c.increment key delta).state.Holds key e → e.value = .counter delta ∧ e.deadline = none
  storeField : ∀ field v ttl, (c.storeField key field v ttl).result = .ok () ∧
    ∀ e, (c.storeField key field v ttl).state.Holds key e → e.value = .hash [(field, v)] ∧
      e.deadline = (Expiry.ofTtl (ttl.or c.defaultTtl)).deadline c.now none

/-- Nothing is left under the key for any operation: no look finds anything, and nothing is removed
or counted as removed. -/
structure Vacant (c : Cache) (key : String) : Prop extends Lacks c key where
  evict : c.evict (c.keys.qualify key) = c
  deleteAll : ∀ keys, (c.deleteAll keys).result = (c.deleteAll (keys.filter (· != key))).result

theorem evict_of_find?_eq_none {k : String} (h : c.store.find? k = none) : c.evict k = c := by
  simp only [Cache.evict, Store.remove, Store.without_of_find?_eq_none h]

theorem removeAll_fst_of_find?_eq_none (s : KeySpace) {c : Cache} {key : String}
    (h : c.store.find? (s.qualify key) = none) (keys : List String) :
    (removeAll (s.qualifyAll keys) c).1 =
      (removeAll (s.qualifyAll (keys.filter (· != key))) c).1 := by
  induction keys generalizing c with
  | nil => rfl
  | cons k keys ih =>
      by_cases same : k = key
      · subst same
        have rest := ih h
        simp only [KeySpace.qualifyAll, List.map_cons, removeAll, h, Option.isSome_none,
          evict_of_find?_eq_none h, List.filter_cons, bne_self_eq_false]
        exact rest
      · have gone : (c.evict (s.qualify k)).store.find? (s.qualify key) = none := by
          apply List.find?_eq_none.mpr
          intro x hx
          simpa using Store.key_ne_of_find? h (Store.mem_remove.mp hx).1
        have rest := ih gone
        simp only [KeySpace.qualifyAll] at rest
        simp only [KeySpace.qualifyAll, List.map_cons, removeAll, List.filter_cons,
          bne_iff_ne.mpr same, if_true, rest]

/-- What is written starts anew, unless it keeps what is there. -/
theorem fresh_of_put {d : Cache} {k : String} {item : Item} {life : Expiry} (fresh : life ≠ .keep)
    (member : e ∈ (d.put k item life).store.entries) (own : e.key = k) :
    e.value = item ∧ e.deadline = life.deadline d.now none := by
  obtain ⟨-, other⟩ | rfl := Store.mem_write member
  · exact absurd own other
  · exact ⟨rfl, Expiry.deadline_of_ne_keep fresh _ _⟩

theorem lacks_of_live?_eq_none (h : c.store.live? (c.keys.qualify key) c.now = none) :
    c.Lacks key := by
  have looked : (c.lookUp (c.keys.qualify key)).1 = none := by
    rw [lookUp_fst, h]
    rfl
  have seen : c.lookUp (c.keys.qualify key) = (none, (c.lookUp (c.keys.qualify key)).2) :=
    Prod.ext looked rfl
  refine ⟨?_, ?_, ?_, ?_, ?_, ?_, ?_⟩
  · simp only [Cache.get, looked, valueOf]
  · intro field
    simp only [Cache.fieldGet, looked]
  · simp only [Cache.fields]
    rw [seen]
  · intro field
    simp only [Cache.fieldTtl, looked]
    rfl
  · intro names
    simp only [Cache.fieldDelete]
    rw [seen]
    exact ⟨rfl, fun e held => key_ne_of_missing looked held.member held.live held.own⟩
  · intro delta fits
    simp only [Cache.increment]
    rw [seen]
    simp only [addTo, Int.zero_add, fits, if_true, true_and]
    intro e held
    exact fresh_of_put Expiry.noConfusion held.member held.own
  · intro field v ttl
    simp only [Cache.storeField]
    rw [seen]
    simp only [putField, true_and]
    intro e held
    have life := Expiry.ofTtl_ne_keep (ttl.or (c.lookUp (c.keys.qualify key)).2.defaultTtl)
    exact fresh_of_put (d := (c.lookUp _).2) life held.member held.own

/-- An entry that stands under the key, past its deadline or not, is met by what removes it. -/
theorem vacant_iff : c.Vacant key ↔ c.store.find? (c.keys.qualify key) = none := by
  constructor
  · intro vacant
    have entries : Store.without (c.keys.qualify key) c.store.entries = c.store.entries :=
      congrArg (fun d => d.store.entries) vacant.evict
    refine List.find?_eq_none.mpr fun e member => ?_
    rw [← entries] at member
    simpa using (Store.mem_without.mp member).2
  · intro h
    refine ⟨lacks_of_live?_eq_none (Store.live?_of_find?_eq_none h _), evict_of_find?_eq_none h, ?_⟩
    intro keys
    simp only [Cache.deleteAll, removeAll_fst_of_find?_eq_none c.keys h keys]

/-- No deadline of an entry came before the timer turned last. -/
def Purged (c : Cache) : Prop :=
  ∀ e ∈ c.store.entries, ∀ due, e.deadline = some due → c.now / Store.turn ≤ due / Store.turn

theorem Purged.sleep (h : c.Purged) (span : Span) : (c.sleep span).Purged := by
  intro e member due at_due
  change e ∈ (c.store.pass c.now (c.now + span.nanos)).entries at member
  rw [Store.pass] at member
  split at member
  next turned =>
      have live := (List.mem_filter.mp member).2
      exact Nat.div_le_div_right (Nat.le_of_lt (lt_of_isLive live at_due))
  next same => exact Nat.le_trans (Nat.not_lt.mp same) (h e member due at_due)

end Cache
namespace State

variable {s : State} {key : String} {e : Entry Item}

theorem dueKept_of_touch_eq_none (still : s.cache.touch = none) (d : Operation) (due : Option Nat) :
    s.dueKept key d due = due := by
  cases d with
  | act a =>
      simp only [dueKept, Cache.dueKept, still]
      split <;> rfl
  | _ => rfl

end State

end Local
end CacheFacade
