import CacheFacade.Local.Cache
import CacheFacade.Proofs.Keys

/-!
What the operations of a local cache are made of: each looks its keys up, writes them or removes
them, and does nothing else. So an operation leaves the entries of other keys alone, except that the
store may drop them, and it leaves the clock, the settings and the locks alone.
-/

namespace CacheFacade

namespace Local

/-- A hash has a field. -/
def Item.Filled : Item → Prop
  | .hash fields => fields ≠ []
  | _ => True

theorem filled_value (v : Val) : (Item.value v).Filled := trivial

theorem filled_counter (n : Int) : (Item.counter n).Filled := trivial

theorem filled_insertEntry (name : String) (v : Val) (fields : List (String × Val)) :
    (Item.hash (Document.insertEntry name v fields)).Filled := by
  cases fields with
  | nil => exact List.cons_ne_nil _ _
  | cons f fields =>
      simp only [Item.Filled, Document.insertEntry]
      split <;> exact List.cons_ne_nil _ _

namespace Cache

/-- What an operation on some keys is made of: it looks keys up, writes them and removes them. -/
inductive Works (on : String → Prop) (c : Cache) : Cache → Prop
  | idle : Works on c c
  | lookUp {d : Cache} {key : String} (before : Works on c d) (h : on key) :
      Works on c (d.lookUp key).2
  | put {d : Cache} {key : String} (before : Works on c d) (h : on key) {item : Item}
      (filled : item.Filled) (life : Expiry) : Works on c (d.put key item life)
  | evict {d : Cache} {key : String} (before : Works on c d) (h : on key) :
      Works on c (d.evict key)

theorem Works.alike {on : String → Prop} {c d : Cache} (h : Works on c d) :
    d = { c with store := d.store } := by
  induction h with
  | idle => rfl
  | lookUp _ _ ih | put _ _ _ _ ih | evict _ _ ih =>
      rw [ih]
      rfl

theorem works_removeAll {on : String → Prop} {c d : Cache} {keys : List String}
    (h : ∀ k ∈ keys, on k) (before : Works on c d) : Works on c (removeAll keys d).2 := by
  induction keys generalizing d with
  | nil => exact before
  | cons k keys ih =>
      apply ih
      · intro k' hk'
        exact h k' (List.mem_cons_of_mem _ hk')
      · exact before.evict (h k List.mem_cons_self)

/-- An increment writes the sum that it answers, or fails after it looked the key up. -/
theorem increment_cases (c : Cache) (key : String) (delta : Int) :
    (∃ n, (c.increment key delta).result = .ok n ∧
        (c.increment key delta).state = (c.lookUp (c.keys.qualify key)).2.put
          (c.keys.qualify key) (.counter n)
          (if (c.lookUp (c.keys.qualify key)).1.isSome then .keep else .never)) ∨
      ∃ f, (c.increment key delta).result = .error f ∧
        (c.increment key delta).state = (c.lookUp (c.keys.qualify key)).2 := by
  have added : ∀ (d : Cache) (life : Expiry) (n : Int),
      (∃ m, (d.addTo (c.keys.qualify key) delta life n).result = .ok m ∧
        (d.addTo (c.keys.qualify key) delta life n).state =
          d.put (c.keys.qualify key) (.counter m) life) ∨
      ∃ f, (d.addTo (c.keys.qualify key) delta life n).result = .error f ∧
        (d.addTo (c.keys.qualify key) delta life n).state = d := by
    intro d life n
    simp only [addTo]
    split
    · exact .inl ⟨_, rfl, rfl⟩
    · exact .inr ⟨_, rfl, rfl⟩
  simp only [increment]
  obtain ⟨_ | item, d⟩ := c.lookUp (c.keys.qualify key)
  · exact added d .never 0
  · dsimp only
    split
    · exact added d .keep _
    · exact .inr ⟨_, rfl, rfl⟩

theorem works_increment {on : String → Prop} (c : Cache) {key : String} (delta : Int)
    (h : on (c.keys.qualify key)) : Works on c (c.increment key delta).state := by
  obtain ⟨n, -, state⟩ | ⟨f, -, state⟩ := c.increment_cases key delta
  · rw [state]
    exact (Works.idle.lookUp h).put h (filled_counter n) _
  · rw [state]
    exact Works.idle.lookUp h

/-- A field is written to a hash that was found or to a new one, or the key holds something else. -/
theorem storeField_cases (c : Cache) (key field : String) (v : Val) (ttl : Option Span) :
    (∃ fields life, (c.storeField key field v ttl).result = .ok () ∧
        (c.storeField key field v ttl).state = (c.lookUp (c.keys.qualify key)).2.put
          (c.keys.qualify key) (.hash (Document.insertEntry field v fields)) life ∧
        ((c.lookUp (c.keys.qualify key)).1 = none ∧ fields = [] ∧
            life = .ofTtl (ttl.or c.defaultTtl) ∨
          (c.lookUp (c.keys.qualify key)).1 = some (.hash fields) ∧
            life = if ttl.isSome then .ofTtl ttl else .keep)) ∨
      ∃ f, (c.storeField key field v ttl).result = .error f ∧
        (c.storeField key field v ttl).state = (c.lookUp (c.keys.qualify key)).2 := by
  have settings : (c.lookUp (c.keys.qualify key)).2.defaultTtl = c.defaultTtl := rfl
  simp only [storeField]
  generalize c.lookUp (c.keys.qualify key) = seen at settings
  obtain ⟨_ | item, d⟩ := seen
  · refine .inl ⟨[], _, rfl, rfl, .inl ⟨rfl, rfl, ?_⟩⟩
    exact congrArg (fun o => Expiry.ofTtl (ttl.or o)) settings
  · cases item with
    | hash fields => exact .inl ⟨fields, _, rfl, rfl, .inr ⟨rfl, rfl⟩⟩
    | value _ => exact .inr ⟨_, rfl, rfl⟩
    | counter _ => exact .inr ⟨_, rfl, rfl⟩

theorem works_storeField {on : String → Prop} (c : Cache) {key : String} (field : String) (v : Val)
    (ttl : Option Span) (h : on (c.keys.qualify key)) :
    Works on c (c.storeField key field v ttl).state := by
  obtain ⟨fields, life, -, state, -⟩ | ⟨f, -, state⟩ := c.storeField_cases key field v ttl
  · rw [state]
    exact (Works.idle.lookUp h).put h (filled_insertEntry field v fields) _
  · rw [state]
    exact Works.idle.lookUp h

/-- Fields are removed from a hash that was found, and the hash goes with its last field. -/
theorem fieldDelete_cases (c : Cache) (key : String) (names : List String) :
    ((c.lookUp (c.keys.qualify key)).1 = none ∧ (c.fieldDelete key names).result = .ok () ∧
        (c.fieldDelete key names).state = (c.lookUp (c.keys.qualify key)).2) ∨
      (∃ fields left, (c.lookUp (c.keys.qualify key)).1 = some (.hash fields) ∧
        left = fields.filter (fun f => !names.contains f.1) ∧
        (c.fieldDelete key names).result = .ok () ∧
        (c.fieldDelete key names).state =
          if left.isEmpty then (c.lookUp (c.keys.qualify key)).2.evict (c.keys.qualify key)
          else (c.lookUp (c.keys.qualify key)).2.put (c.keys.qualify key) (.hash left) .keep) ∨
      ∃ f, (c.fieldDelete key names).result = .error f ∧
        (c.fieldDelete key names).state = (c.lookUp (c.keys.qualify key)).2 := by
  simp only [fieldDelete]
  obtain ⟨_ | item, d⟩ := c.lookUp (c.keys.qualify key)
  · exact .inl ⟨rfl, rfl, rfl⟩
  · cases item with
    | hash fields => exact .inr (.inl ⟨fields, _, rfl, rfl, rfl, rfl⟩)
    | value _ => exact .inr (.inr ⟨_, rfl, rfl⟩)
    | counter _ => exact .inr (.inr ⟨_, rfl, rfl⟩)

theorem fields_state (c : Cache) (key : String) :
    (c.fields key).state = (c.lookUp (c.keys.qualify key)).2 := by
  simp only [fields]
  obtain ⟨_ | item, d⟩ := c.lookUp (c.keys.qualify key)
  · rfl
  · cases item <;> rfl

end Cache

theorem Cache.works_run (c : Cache) (a : Action) :
    c.Works (· ∈ a.keys.map c.keys.qualify) (c.run a).state := by
  have own : ∀ {key : String}, a.keys = [key] →
      c.keys.qualify key ∈ a.keys.map c.keys.qualify := by
    intro key h
    rw [h]
    exact List.mem_singleton_self _
  cases a with
  | get key | fieldGet key _ | fieldTtl key _ => exact Works.idle.lookUp (own rfl)
  | set key v | setFor key v ttl => exact Works.idle.put (own rfl) (filled_value v) _
  | delete key | expire key _ => exact Works.idle.evict (own rfl)
  | deleteAll keys => exact works_removeAll (fun _ h => h) .idle
  | fieldExpire key _ _ => exact .idle
  | fields key =>
      change Works _ c (c.fields key).state
      rw [c.fields_state key]
      exact Works.idle.lookUp (own rfl)
  | increment key delta => exact c.works_increment delta (own rfl)
  | decrement key delta =>
      simp only [run, decrement]
      split
      · exact c.works_increment (-delta) (own rfl)
      · exact .idle
  | fieldSet key field v => exact c.works_storeField field v none (own rfl)
  | fieldSetFor key field v ttl => exact c.works_storeField field v (some ttl) (own rfl)
  | fieldDelete key names =>
      change Works _ c (c.fieldDelete key names).state
      obtain ⟨-, -, state⟩ | ⟨fields, left, -, -, -, state⟩ | ⟨f, -, state⟩ :=
        c.fieldDelete_cases key names
      · rw [state]
        exact Works.idle.lookUp (own rfl)
      · rw [state]
        split
        next => exact (Works.idle.lookUp (own rfl)).evict (own rfl)
        next full =>
            have filled : (Item.hash left).Filled := fun none => full (List.isEmpty_iff.mpr none)
            exact (Works.idle.lookUp (own rfl)).put (own rfl) filled _
      · rw [state]
        exact Works.idle.lookUp (own rfl)

theorem Cache.alike_run (c : Cache) (a : Action) :
    (c.run a).state = { c with store := (c.run a).state.store } :=
  (c.works_run a).alike

end Local
end CacheFacade
