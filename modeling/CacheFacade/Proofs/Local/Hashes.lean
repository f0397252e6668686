import CacheFacade.Proofs.Local.Lossless

/-!
The hashes of a local cache. No hash is stored without a field, whatever is written and removed, so
a key that shows no fields holds nothing; and all that is asked about a field is answered by the same
fields. Removing fields leaves the others, and with the last one the key is gone.
-/

namespace CacheFacade
namespace Local
namespace Cache

variable {c : Cache} {key : String}

theorem fields_eq_ok_iff {entries : List (String × Val)} : (c.fields key).result = .ok entries ↔
    c.held key = none ∧ entries = [] ∨ c.held key = some (.hash entries) := by
  rw [fields_result]
  cases c.held key with
  | none => simp [eq_comm]
  | some item => cases item <;> simp

theorem hasRoom_of_held (tidy : c.store.Tidy) {old item : Item} (there : c.held key = some old)
    (less : item.cost ≤ old.cost) : c.HasRoom key item := by
  obtain ⟨e, found, rfl⟩ := Option.map_eq_some_iff.mp there
  obtain ⟨member, own, -⟩ := Store.mem_of_live? found
  have cost := tidy.priced e member
  have all := Store.totalCost_of_perm
    (Store.perm_without tidy.nodup (Store.find?_of_mem tidy.nodup member own))
  rw [Store.totalCost_append, Store.totalCost_singleton] at all
  calc
    _ ≤ Store.totalCost (Store.without (c.keys.qualify key) c.store.entries) + e.cost :=
      Nat.add_le_add_left (less.trans (Nat.le_of_eq cost.symm)) _
    _ = c.store.used := all.symm
    _ ≤ c.store.budget := tidy.fits

theorem cost_filter_le (p : String × Val → Bool) (fields : List (String × Val)) :
    (Item.hash (fields.filter p)).cost ≤ (Item.hash fields).cost := by
  have shorter := List.length_filter_le p fields
  simp only [Item.cost]
  omega

section FieldDelete

variable (renews : Renews c.touch)

include renews

theorem held_fieldDelete (tidy : c.store.Tidy) (names : List String) :
    (c.fieldDelete key names).state.held key = (Effect.unfield names).apply (c.held key) := by
  obtain ⟨missing, -, state⟩ | ⟨fields, left, there, rfl, -, state⟩ | ⟨f, result, state⟩ :=
    c.fieldDelete_cases key names
  · rw [lookUp_fst_eq_held] at missing
    rw [state, held_lookUp renews, missing]
    rfl
  · rw [lookUp_fst_eq_held] at there
    rw [state, there, Effect.apply]
    split
    next =>
        have evicted := (c.lookUp (c.keys.qualify key)).2.held_evict key key
        exact evicted.trans (if_pos rfl)
    next =>
        have room := hasRoom_of_held tidy there
          (cost_filter_le (fun f => !names.contains f.1) fields)
        have found : c.finds key = true := by rw [← isSome_lookUp, lookUp_fst_eq_held, there]; rfl
        have kept : Expiry.keep.Positive := trivial
        exact (held_rewrite renews room kept (fun _ => found) key).trans (if_pos rfl)
  · rw [state, held_lookUp renews]
    rw [fieldDelete_result] at result
    cases there : c.held key with
    | none => rfl
    | some item =>
        rw [there] at result
        cases item with
        | value v | counter n => rfl
        | hash fields => cases result

theorem held_fieldDelete_of_shown (tidy : c.store.Tidy) {entries : List (String × Val)}
    (shown : (c.fields key).result = .ok entries) (names : List String) :
    (c.fieldDelete key names).state.held key =
      let left := entries.filter fun f => !names.contains f.1
      if left.isEmpty then none else some (.hash left) := by
  rw [held_fieldDelete renews tidy]
  obtain ⟨missing, rfl⟩ | there := fields_eq_ok_iff.mp shown
  · rw [missing]
    rfl
  · rw [there]
    rfl

theorem fields_fieldDelete (tidy : c.store.Tidy) {entries : List (String × Val)}
    (shown : (c.fields key).result = .ok entries) (names : List String) :
    ((c.fieldDelete key names).state.fields key).result =
      .ok (entries.filter fun f => !names.contains f.1) := by
  rw [fields_eq_ok_iff, held_fieldDelete_of_shown renews tidy shown]
  dsimp only
  split
  next empty => exact .inl ⟨rfl, List.isEmpty_iff.mp empty⟩
  next => exact .inr rfl

theorem lacks_fieldDelete_iff (tidy : c.store.Tidy) {entries : List (String × Val)}
    (shown : (c.fields key).result = .ok entries) (names : List String) :
    (c.fieldDelete key names).state.Lacks key ↔ ∀ f ∈ entries, f.1 ∈ names := by
  rw [← Config.filter_isEmpty_iff]
  constructor
  · intro lacks
    have none := (fields_fieldDelete renews tidy shown names).symm.trans lacks.fields
    exact List.isEmpty_iff.mpr (Except.ok.inj none)
  · intro empty
    apply lacks_of_held_eq_none
    rw [held_fieldDelete_of_shown renews tidy shown]
    exact if_pos empty

end FieldDelete

/-- A hash goes with its last field. -/
theorem vacant_fieldDelete {entries : List (String × Val)}
    (shown : (c.fields key).result = .ok entries) (some : entries ≠ []) {names : List String}
    (all : ∀ f ∈ entries, f.1 ∈ names) : (c.fieldDelete key names).state.Vacant key := by
  obtain ⟨-, rfl⟩ | there := fields_eq_ok_iff.mp shown
  · exact absurd rfl some
  · rw [← lookUp_fst_eq_held] at there
    obtain ⟨missing, -⟩ | ⟨fields, left, found, rfl, -, state⟩ | ⟨f, result, -⟩ :=
      c.fieldDelete_cases key names
    · cases missing.symm.trans there
    · cases found.symm.trans there
      rw [state, if_pos (Config.filter_isEmpty_iff.mpr all)]
      exact vacant_iff.mpr (Store.find?_remove_self ..)
    · rw [fieldDelete_result, ← lookUp_fst_eq_held, there] at result
      cases result

theorem exists_shown_iff {f : String × Val} :
    (∃ entries, (c.fields key).result = .ok entries ∧ f ∈ entries) ↔ f ∈ fieldsOf (c.held key) := by
  simp only [fields_eq_ok_iff]
  cases c.held key with
  | none => simp [fieldsOf]
  | some item => cases item <;> simp [fieldsOf]

/-- Fields have no lifetimes of their own, so what is told of one is whether it can be read. -/
theorem fieldTtl_iff_fieldGet (field : String) :
    ((c.fieldTtl key field).result = .ok .persistent ↔
      ∃ v, (c.fieldGet key field).result = .ok (some v)) ∧
    ((c.fieldTtl key field).result = .ok .missing ↔
      ¬ ∃ v, (c.fieldGet key field).result = .ok (some v)) := by
  simp only [fieldTtl_result, fieldGet_result, Except.ok.injEq, ← Option.isSome_iff_exists]
  split <;> simp [*]

theorem fresh_of_set {v : Val} {e : Entry Item} (there : (c.set key v).state.Holds key e) :
    e.value = .value v ∧ e.deadline = (Expiry.ofTtl c.defaultTtl).deadline c.now none :=
  fresh_of_put (Expiry.ofTtl_ne_keep _) there.member there.own

end Cache

namespace State

/-- What is stored of hashes in a state, and what is answered about their fields. -/
structure Coherent (s : State) : Prop where
  /-- A hash has fields, of different names, and costs as many as it has, as far as 32 bits go. -/
  stored : ∀ e ∈ s.cache.store.entries, ∀ fields, e.value = .hash fields →
    fields ≠ [] ∧ (fields.map (·.1)).Nodup ∧ e.cost = min fields.length (2 ^ 32 - 1)
  empty : ∀ key, (s.cache.fields key).result = .ok [] ↔ ∀ e, ¬ s.cache.Holds key e
  field : ∀ key f v, (s.cache.fieldGet key f).result = .ok (some v) ↔
    ∃ entries, (s.cache.fields key).result = .ok entries ∧ (f, v) ∈ entries
  persistent : ∀ key f, (s.cache.fieldTtl key f).result = .ok .persistent ↔
    ∃ v, (s.cache.fieldGet key f).result = .ok (some v)
  missing : ∀ key f, (s.cache.fieldTtl key f).result = .ok .missing ↔
    ¬ ∃ v, (s.cache.fieldGet key f).result = .ok (some v)
  left : ∀ key entries names, (s.cache.fields key).result = .ok entries →
    ((s.step (.act (.fieldDelete key names))).cache.fields key).result =
      .ok (entries.filter fun f => !names.contains f.1)
  /-- Without a field nothing is found under the key, and whatever is written to it next starts anew. -/
  emptied : ∀ key entries names, (s.cache.fields key).result = .ok entries →
    ((∀ f ∈ entries, f.1 ∈ names) ↔ (s.step (.act (.fieldDelete key names))).cache.Lacks key)
  /-- With the last field the key is gone. -/
  removed : ∀ key entries names, (s.cache.fields key).result = .ok entries → entries ≠ [] →
    (∀ f ∈ entries, f.1 ∈ names) → (s.step (.act (.fieldDelete key names))).cache.Vacant key
  set : ∀ key v e, (s.cache.set key v).state.Holds key e → e.value = .value v ∧
    e.deadline = (Expiry.ofTtl s.cache.defaultTtl).deadline s.cache.now none

theorem coherent_of_tidy {s : State} (renews : Renews s.cache.touch)
    (tidy : s.cache.store.Tidy)
    (sorted : ∀ e ∈ s.cache.store.entries, ∀ fields, e.value = .hash fields → Sorted fields) :
    s.Coherent := by
  have found : ∀ {key : String} {fields : List (String × Val)},
      s.cache.held key = some (.hash fields) → fields ≠ [] ∧ Sorted fields := by
    intro key fields there
    obtain ⟨e, found, value⟩ := Option.map_eq_some_iff.mp there
    have member := (Store.mem_of_live? found).1
    have filled := tidy.filled e member
    rw [value] at filled
    exact ⟨filled, sorted e member fields value⟩
  have ordered : ∀ key, Sorted (fieldsOf (s.cache.held key)) := by
    intro key
    cases there : s.cache.held key with
    | none => exact List.Pairwise.nil
    | some item =>
        cases item with
        | hash fields => exact (found there).2
        | value v | counter n => exact List.Pairwise.nil
  refine ⟨?_, fun key => ?_, fun key f v => ?_, fun key f => ?_, fun key f => ?_, ?_, ?_, ?_, ?_⟩
  · intro e member fields value
    have filled := tidy.filled e member
    have cost := (tidy.priced e member).trans (Item.cost_of_filled filled)
    rw [value] at filled cost
    exact ⟨filled, (sorted e member fields value).nodup, cost⟩
  · rw [Cache.fields_eq_ok_iff, ← Cache.held_eq_none_iff, and_iff_left rfl, or_iff_left_iff_imp]
    exact fun there => absurd rfl (found there).1
  · rw [Cache.fieldGet_result, Except.ok.injEq, Cache.exists_shown_iff]
    exact (ordered key).lookup_eq_some_iff
  · exact (Cache.fieldTtl_iff_fieldGet f).1
  · exact (Cache.fieldTtl_iff_fieldGet f).2
  · exact fun key entries names shown => Cache.fields_fieldDelete renews tidy shown names
  · exact fun key entries names shown => (Cache.lacks_fieldDelete_iff renews tidy shown names).symm
  · exact fun key entries names shown some all => Cache.vacant_fieldDelete shown some all
  · exact fun key v e there => Cache.fresh_of_set there

/-- In every run of a local cache no hash is empty, and all that is answered about fields agrees. -/
theorem coherent_after (c : Config) (ops : List Operation) : ((opened c).after ops).Coherent := by
  apply coherent_of_tidy (renews_after c ops) (tidy_after c ops).1
  exact fun e member fields value => sorted_of_mem c ops member value

end State
end Local
end CacheFacade
