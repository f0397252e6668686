import CacheFacade.Proofs.Local.Contents

/-!
What operations answer, by what the key holds, and with which effect and which deadline. All of it is
as on a plain map, which knows nothing of how the store came to hold the key.
-/

namespace CacheFacade
namespace Local
namespace Cache

variable {c : Cache} {key k : String} {a : Action}

section Results

variable (c) (key)

theorem get_result : (c.get key).result = .ok (valueOf c.codec (c.held key)) := by
  rw [← lookUp_fst_eq_held]
  rfl

theorem fieldGet_result (field : String) :
    (c.fieldGet key field).result = .ok ((fieldsOf (c.held key)).lookup field) := by
  rw [← lookUp_fst_eq_held]
  simp only [fieldGet]
  obtain ⟨_ | item, d⟩ := c.lookUp (c.keys.qualify key)
  · rfl
  · cases item <;> rfl

theorem fieldTtl_result (field : String) : (c.fieldTtl key field).result =
    .ok (if ((fieldsOf (c.held key)).lookup field).isSome then .persistent else .missing) := by
  rw [← lookUp_fst_eq_held]
  simp only [fieldTtl]
  obtain ⟨_ | item, d⟩ := c.lookUp (c.keys.qualify key)
  · rfl
  · cases item <;> rfl

theorem fields_result : (c.fields key).result =
    match c.held key with
    | none => .ok []
    | some (.hash fields) => .ok fields
    | some _ => .error (notHash (c.keys.qualify key)) := by
  rw [← lookUp_fst_eq_held]
  simp only [fields]
  obtain ⟨_ | item, d⟩ := c.lookUp (c.keys.qualify key)
  · rfl
  · cases item <;> rfl

theorem storeField_result (field : String) (v : Val) (ttl : Option Span) :
    (c.storeField key field v ttl).result =
      match c.held key with
      | none | some (.hash _) => .ok ()
      | some _ => .error (notHash (c.keys.qualify key)) := by
  rw [← lookUp_fst_eq_held]
  simp only [storeField]
  obtain ⟨_ | item, d⟩ := c.lookUp (c.keys.qualify key)
  · rfl
  · cases item <;> rfl

theorem increment_result (delta : Int) : (c.increment key delta).result =
    match (c.held key).elim (.ok 0) fun item =>
        (itemInteger c.codec (c.keys.qualify key) item).1 with
    | .ok n =>
      if IntKind.i64.holds (n + delta) then .ok (n + delta)
      else .error (.wrongType s!"increment of {c.keys.qualify key} would overflow")
    | .error f => .error f := by
  have added : ∀ (d : Cache) (life : Expiry) (n : Int),
      (d.addTo (c.keys.qualify key) delta life n).result =
        if IntKind.i64.holds (n + delta) then .ok (n + delta)
        else .error (.wrongType s!"increment of {c.keys.qualify key} would overflow") := by
    intro d life n
    simp only [addTo]
    split <;> rfl
  have codec : (c.lookUp (c.keys.qualify key)).2.codec = c.codec := rfl
  rw [← lookUp_fst_eq_held]
  simp only [increment]
  generalize c.lookUp (c.keys.qualify key) = seen at codec
  obtain ⟨_ | item, d⟩ := seen
  · exact added d .never 0
  · dsimp only [Option.elim_some] at codec ⊢
    rw [codec]
    generalize itemInteger c.codec (c.keys.qualify key) item = read
    obtain ⟨n | f, lines⟩ := read
    · rfl
    · exact added d .keep f

theorem fieldDelete_result (names : List String) : (c.fieldDelete key names).result =
    match c.held key with
    | none | some (.hash _) => .ok ()
    | some _ => .error (notHash (c.keys.qualify key)) := by
  rw [← lookUp_fst_eq_held]
  simp only [fieldDelete]
  obtain ⟨_ | item, d⟩ := c.lookUp (c.keys.qualify key)
  · rfl
  · cases item <;> rfl

end Results

/-- The cache was opened with this configuration. -/
structure OpenedWith (c : Cache) (g : Config) : Prop where
  keys : c.keys = ⟨g.name⟩
  codec : c.codec = g.codec
  ttl : c.defaultTtl = g.ttl
  touch : c.touch = if g.touch then g.ttl else none

section Effects

variable {g : Config}

theorem effect?_increment (opened : c.OpenedWith g) (delta : Int)
    (same : c.run a = (c.increment k delta).map .number id)
    (effect : ∀ r, a.effect? k r = r.number?.map .counter) :
    c.effect? k a = counted g.codec ((⟨g.name⟩ : KeySpace).qualify k) (c.held k) delta := by
  have result : (c.run a).result = (c.increment k delta).result.map .number := by
    rw [same]
    rfl
  rw [effect?, result, increment_result, ← opened.codec, ← opened.keys, counted]
  cases (c.held k).elim (.ok 0) fun item => (itemInteger c.codec (c.keys.qualify k) item).1 with
  | error f => rfl
  | ok n =>
      by_cases fits : IntKind.i64.holds (n + delta) = true
      · simp only [if_pos fits]
        exact effect _
      · simp only [if_neg fits]
        rfl

theorem effect?_storeField {field : String} {v : Val} (ttl : Option Span)
    (same : c.run a = (c.storeField k field v ttl).map (fun _ => .done) id)
    (effect : ∀ r, a.effect? k r = some (.field field v)) :
    c.effect? k a = if takesFields (c.held k) then some (.field field v) else none := by
  have result : (c.run a).result = (c.storeField k field v ttl).result.map fun _ => .done := by
    rw [same]
    rfl
  rw [effect?, result, storeField_result]
  cases c.held k with
  | none => exact effect _
  | some item =>
      cases item with
      | hash fields => exact effect _
      | value v | counter n => rfl

theorem effect?_fieldDelete (names : List String) : c.effect? k (.fieldDelete k names) =
    if takesFields (c.held k) then some (.unfield names) else none := by
  have result : (c.run (.fieldDelete k names)).result =
      (c.fieldDelete k names).result.map fun _ => .done := rfl
  rw [effect?, result, fieldDelete_result]
  cases c.held k with
  | none => exact if_pos rfl
  | some item =>
      cases item with
      | hash fields => exact if_pos rfl
      | value v | counter n => rfl

theorem effect?_eq (opened : c.OpenedWith g) (key : String) (a : Action) :
    c.effect? key a = g.effectOn key (c.held key) a := by
  by_cases named : key ∈ a.keys
  · cases a with
    | get k | fieldGet k _ | fields k | fieldExpire k _ _ | fieldTtl k _ =>
        exact effect?_of_silent fun _ => rfl
    | set k v | setFor k v _ | delete k | expire k _ | deleteAll ks => rfl
    | increment k delta =>
        cases List.mem_singleton.mp named
        rw [Config.effectOn, if_pos rfl]
        exact effect?_increment opened delta rfl fun _ => if_pos rfl
    | decrement k delta =>
        cases List.mem_singleton.mp named
        by_cases fits : IntKind.i64.holds (-delta) = true
        · rw [Config.effectOn, if_pos ⟨rfl, fits⟩]
          apply effect?_increment opened (-delta)
          · simp only [Cache.run, decrement, if_pos fits]
          · exact fun _ => if_pos rfl
        · rw [Config.effectOn, if_neg fun both => fits both.2]
          apply effect?_of_error (f := .wrongType s!"decrement by {delta} would overflow")
          simp only [Cache.run, decrement, if_neg fits]
          rfl
    | fieldSet k field v =>
        cases List.mem_singleton.mp named
        simp only [Config.effectOn, true_and]
        exact effect?_storeField none rfl fun _ => if_pos rfl
    | fieldSetFor k field v ttl =>
        cases List.mem_singleton.mp named
        simp only [Config.effectOn, true_and]
        exact effect?_storeField (some ttl) rfl fun _ => if_pos rfl
    | fieldDelete k names =>
        cases List.mem_singleton.mp named
        simp only [Config.effectOn, true_and]
        exact effect?_fieldDelete names
  · rw [(spared_of_not_named named).1, g.effectOn_of_not_named named]

theorem lifeGiven_eq (opened : c.OpenedWith g) (key : String) (a : Action) :
    c.lifeGiven key a = g.lifeOn (c.held key).isSome a := by
  have finds : c.finds key = (c.held key).isSome := by rw [finds, held, Option.isSome_map]
  cases a with
  | set k v => simp only [lifeGiven, Config.lifeOn, opened.ttl]
  | increment k delta | decrement k delta => simp only [lifeGiven, Config.lifeOn, finds]
  | fieldSet k field v => simp only [lifeGiven, Config.lifeOn, finds, opened.ttl]
  | _ => rfl

theorem due_of_keptBy (opened : c.OpenedWith g) {before : Option Kept}
    (agree : Agree (c.held key) (before.map Kept.item)) {due : Option Nat}
    (same : ∀ b, before = some b → b.due = due) {after : Kept}
    (kept : g.keptBy key a c.now before = some after) : after.due = c.dueAfter key a due := by
  have effect := (effect?_eq opened key a).trans (agree.effectOn_eq g key a)
  have life := lifeGiven_eq opened key a
  rw [agree.isSome_eq, Option.isSome_map] at life
  have seen : ∀ b, before = some b →
      (g.seenBy key a c.now b).due = if a.looksUp key then touched c.now c.touch due else due := by
    intro b there
    rw [Config.seenBy, opened.touch, ← same b there]
    split <;> rfl
  simp only [Config.keptBy] at kept
  simp only [dueAfter, effect, life]
  cases on : g.effectOn key (before.map Kept.item) a with
  | none =>
      rw [on] at kept
      obtain ⟨b, there, rfl⟩ := Option.map_eq_some_iff.mp kept
      exact seen b there
  | some e =>
      rw [on] at kept
      obtain ⟨item, left, rfl⟩ := Option.map_eq_some_iff.mp kept
      cases before with
      | none => exact (Expiry.deadline_of_ne_keep (g.lifeOn_ne_keep on left) _ _).symm
      | some b => exact congrArg (Expiry.deadline c.now · _) (seen b rfl)

end Effects

end Cache
end Local
end CacheFacade
