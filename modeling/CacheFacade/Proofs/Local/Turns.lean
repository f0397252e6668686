import CacheFacade.Proofs.Local.History

/-!
What an operation comes to. It leaves everything, looks a key up, puts a value, writes anew what it
looked up, or removes keys; and what it answers tells which of these it was, and with which effect.
-/

namespace CacheFacade
namespace Local
namespace Cache

variable {c : Cache} {a : Action} {key : String}

theorem lookUp_fst (c : Cache) (key : String) :
    (c.lookUp key).1 = (c.store.live? key c.now).map Entry.value :=
  Store.read_fst _ _ _ _

theorem isSome_lookUp (c : Cache) (key : String) :
    (c.lookUp (c.keys.qualify key)).1.isSome = c.finds key := by
  rw [lookUp_fst, Option.isSome_map, finds]

theorem key_ne_of_missing (missing : (c.lookUp key).1 = none) {e : Entry Item}
    (member : e ∈ (c.lookUp key).2.store.entries) (live : e.isLive c.now = true) :
    e.key ≠ key := by
  obtain ⟨-, other⟩ | ⟨old, found, -⟩ := Store.mem_read member
  · exact other live
  · rw [lookUp_fst, found] at missing
    cases missing

theorem effect?_of_ok {r : Reply} (result : (c.run a).result = .ok r) :
    c.effect? key a = a.effect? key r := by
  rw [effect?, result]

theorem effect?_of_error (key : String) {f : Fault} (result : (c.run a).result = .error f) :
    c.effect? key a = none := by
  rw [effect?, result]

theorem effect?_of_silent (silent : ∀ r, a.effect? key r = none) : c.effect? key a = none := by
  rw [effect?]
  split
  · exact silent _
  · rfl

/-- What an operation does not name, it neither looks up nor changes. -/
theorem spared_of_not_named (h : key ∉ a.keys) :
    c.effect? key a = none ∧ a.looksUp key = false := by
  have other : ∀ {k : String}, a.keys = [k] → k ≠ key := by
    rintro k single rfl
    exact h (single ▸ List.mem_singleton_self _)
  have spared : (∀ r, a.effect? key r = none) ∧ a.looksUp key = false := by
    cases a with
    | deleteAll keys => exact ⟨fun _ => if_neg h, rfl⟩
    | get k | fieldGet k _ | fields k | fieldTtl k _ =>
        exact ⟨fun _ => rfl, beq_eq_false_iff_ne.mpr (other rfl)⟩
    | increment k _ | fieldSet k _ _ | fieldSetFor k _ _ _ | fieldDelete k _ =>
        exact ⟨fun _ => if_neg (other rfl), beq_eq_false_iff_ne.mpr (other rfl)⟩
    | decrement k _ =>
        refine ⟨fun _ => if_neg (other rfl), ?_⟩
        simp only [Action.looksUp, beq_eq_false_iff_ne.mpr (other rfl), Bool.false_and]
    | set k _ | setFor k _ _ | delete k | expire k _ => exact ⟨fun _ => if_neg (other rfl), rfl⟩
    | fieldExpire k _ _ => exact ⟨fun _ => rfl, rfl⟩
  exact ⟨effect?_of_silent spared.1, spared.2⟩

theorem positive_lifeGiven (c : Cache) (key : String) (a : Action) :
    (c.lifeGiven key a).Positive := by
  cases a with
  | set k v => exact Expiry.positive_ofTtl _
  | setFor k v ttl | fieldSetFor k _ v ttl => exact Expiry.positive_ofTtl (some ttl)
  | increment k delta | decrement k delta =>
      simp only [lifeGiven]
      split <;> trivial
  | fieldSet k field v =>
      simp only [lifeGiven]
      split
      · trivial
      · exact Expiry.positive_ofTtl _
  | _ => trivial

/-- What is made of an item that was looked up, and with which effect. -/
inductive Makes (found : Option Item) : Effect → Item → Prop
  | counter (n : Int) : Makes found (.counter n) (.counter n)
  | field (name : String) (v : Val) {fields : List (String × Val)}
      (there : found = none ∧ fields = [] ∨ found = some (.hash fields)) :
      Makes found (.field name v) (.hash (Document.insertEntry name v fields))
  | unfield (names : List String) {fields : List (String × Val)} (there : found = some (.hash fields))
      (left : ¬ (fields.filter fun f => !names.contains f.1).isEmpty = true) :
      Makes found (.unfield names) (.hash (fields.filter fun f => !names.contains f.1))

/-- What an operation comes to: the state that it leaves, and its effects. -/
inductive Turn (c : Cache) (a : Action) : Cache → Prop
  | idle (effects : ∀ key, c.effect? key a = none) (looks : ∀ key, a.looksUp key = false) :
      Turn c a c
  | seen {k : String} (single : a.keys = [k]) (looks : a.looksUp k = true)
      (none : c.effect? k a = none) : Turn c a (c.lookUp (c.keys.qualify k)).2
  /-- Fields are removed, but there is no hash. -/
  | missed {k : String} (single : a.keys = [k]) (looks : a.looksUp k = true) {names : List String}
      (effect : c.effect? k a = some (.unfield names)) (keeps : c.lifeGiven k a = .keep)
      (missing : (c.lookUp (c.keys.qualify k)).1 = none) : Turn c a (c.lookUp (c.keys.qualify k)).2
  | put {k : String} (single : a.keys = [k]) (looks : a.looksUp k = false) {v : Val}
      (effect : c.effect? k a = some (.value v)) (fresh : c.lifeGiven k a ≠ .keep) :
      Turn c a (c.put (c.keys.qualify k) (.value v) (c.lifeGiven k a))
  | rewritten {k : String} (single : a.keys = [k]) (looks : a.looksUp k = true) {e : Effect}
      (effect : c.effect? k a = some e) {item : Item}
      (made : Makes (c.lookUp (c.keys.qualify k)).1 e item)
      (found : c.lifeGiven k a = .keep → c.finds k = true) :
      Turn c a ((c.lookUp (c.keys.qualify k)).2.put (c.keys.qualify k) item (c.lifeGiven k a))
  /-- The last fields of a hash are removed. -/
  | emptied {k : String} (single : a.keys = [k]) (looks : a.looksUp k = true) {names : List String}
      (effect : c.effect? k a = some (.unfield names)) {fields : List (String × Val)}
      (there : (c.lookUp (c.keys.qualify k)).1 = some (.hash fields))
      (left : (fields.filter fun f => !names.contains f.1).isEmpty = true) :
      Turn c a ((c.lookUp (c.keys.qualify k)).2.evict (c.keys.qualify k))
  | removed (effects : ∀ key ∈ a.keys, c.effect? key a = some .gone)
      (looks : ∀ key, a.looksUp key = false) : Turn c a (removeAll (c.keys.qualifyAll a.keys) c).2

theorem turn_increment (delta : Int) (single : a.keys = [key])
    (same : c.run a = (c.increment key delta).map .number id) (looks : a.looksUp key = true)
    (effect : ∀ r, a.effect? key r = r.number?.map .counter)
    (life : c.lifeGiven key a = if c.finds key then .keep else .never) :
    Turn c a (c.run a).state := by
  have state : (c.run a).state = (c.increment key delta).state := by rw [same]; rfl
  obtain ⟨n, result, after⟩ | ⟨f, result, after⟩ := c.increment_cases key delta
  · have ok : (c.run a).result = .ok (.number n) := by
      rw [same, Step.map, result]
      rfl
    have counted : c.effect? key a = some (.counter n) := by
      rw [effect?_of_ok ok, effect]
      rfl
    rw [state, after, isSome_lookUp, ← life]
    refine .rewritten single looks counted (.counter n) ?_
    rw [life]
    intro keep
    cases finds : c.finds key with
    | true => rfl
    | false =>
        rw [finds] at keep
        cases keep
  · have failed : (c.run a).result = .error f := by
      rw [same, Step.map, result]
      rfl
    rw [state, after]
    exact .seen single looks (effect?_of_error key failed)

theorem turn_storeField {field : String} {v : Val} (ttl : Option Span) (single : a.keys = [key])
    (same : c.run a = (c.storeField key field v ttl).map (fun _ => .done) id)
    (looks : a.looksUp key = true) (effect : ∀ r, a.effect? key r = some (.field field v))
    (life : c.lifeGiven key a =
      if ttl.isSome then .ofTtl ttl else if c.finds key then .keep else .ofTtl c.defaultTtl) :
    Turn c a (c.run a).state := by
  have state : (c.run a).state = (c.storeField key field v ttl).state := by rw [same]; rfl
  obtain ⟨fields, given, result, after, shape⟩ | ⟨f, result, after⟩ :=
    c.storeField_cases key field v ttl
  · have ok : (c.run a).result = .ok .done := by
      rw [same, Step.map, result]
      rfl
    have wrote : c.effect? key a = some (.field field v) := by
      rw [effect?_of_ok ok, effect]
    have finds := (c.isSome_lookUp key).symm
    have lasting : c.lifeGiven key a = given := by
      rw [life]
      obtain ⟨missing, -, rfl⟩ | ⟨there, rfl⟩ := shape
      · rw [finds, missing]
        cases ttl <;> rfl
      · rw [finds, there]
        cases ttl <;> rfl
    rw [state, after, ← lasting]
    refine .rewritten single looks wrote (.field field v ?_) ?_
    · exact shape.imp (fun h => ⟨h.1, h.2.1⟩) fun h => h.1
    · rw [lasting]
      intro keep
      obtain ⟨-, -, rfl⟩ | ⟨there, -⟩ := shape
      · exact absurd keep (Expiry.ofTtl_ne_keep _)
      · rw [finds, there]
        rfl
  · have failed : (c.run a).result = .error f := by
      rw [same, Step.map, result]
      rfl
    rw [state, after]
    exact .seen single looks (effect?_of_error key failed)

theorem turn_fieldDelete (c : Cache) (key : String) (names : List String) :
    Turn c (.fieldDelete key names) (c.run (.fieldDelete key names)).state := by
  have looks : (Action.fieldDelete key names).looksUp key = true := beq_self_eq_true key
  have effect : ∀ {r : Unit}, (c.fieldDelete key names).result = .ok r →
      c.effect? key (.fieldDelete key names) = some (.unfield names) := by
    intro r result
    have ok : (c.run (.fieldDelete key names)).result = .ok .done := by
      rw [run, Step.map, result]
      rfl
    rw [effect?_of_ok ok]
    exact if_pos rfl
  change Turn c _ (c.fieldDelete key names).state
  obtain ⟨missing, result, after⟩ | ⟨fields, left, there, rfl, result, after⟩ |
      ⟨f, result, after⟩ := c.fieldDelete_cases key names
  · rw [after]
    exact .missed rfl looks (effect result) rfl missing
  · rw [after]
    split
    next empty => exact .emptied rfl looks (effect result) there empty
    next full =>
        refine .rewritten rfl looks (effect result) (.unfield names there full) ?_
        intro _
        rw [← isSome_lookUp, there]
        rfl
  · have failed : (c.run (.fieldDelete key names)).result = .error f := by
      rw [run, Step.map, result]
      rfl
    rw [after]
    exact .seen rfl looks (effect?_of_error key failed)

theorem turn_run (c : Cache) (a : Action) : Turn c a (c.run a).state := by
  cases a with
  | get k | fieldGet k _ | fieldTtl k _ =>
      exact .seen rfl (beq_self_eq_true k) (effect?_of_silent fun _ => rfl)
  | fields k =>
      change Turn c _ (c.fields k).state
      rw [c.fields_state k]
      exact .seen rfl (beq_self_eq_true k) (effect?_of_silent fun _ => rfl)
  | fieldExpire k field ttl =>
      exact .idle (fun _ => effect?_of_silent fun _ => rfl) fun _ => rfl
  | set k v => exact .put rfl rfl (if_pos rfl) (Expiry.ofTtl_ne_keep _)
  | setFor k v ttl => exact .put rfl rfl (if_pos rfl) (Expiry.ofTtl_ne_keep (some ttl))
  | delete k | expire k _ =>
      refine .removed ?_ fun _ => rfl
      intro key named
      exact if_pos (List.mem_singleton.mp named).symm
  | deleteAll keys => exact .removed (fun key named => if_pos named) fun _ => rfl
  | increment k delta =>
      exact turn_increment delta rfl rfl (beq_self_eq_true k) (fun _ => if_pos rfl) rfl
  | decrement k delta =>
      by_cases fits : IntKind.i64.holds (-delta) = true
      · apply turn_increment (-delta) rfl
        · simp only [Cache.run, decrement, if_pos fits]
        · simp only [Action.looksUp, beq_self_eq_true, fits, Bool.and_self]
        · exact fun _ => if_pos rfl
        · rfl
      · have unrun : c.run (.decrement k delta) =
            ⟨.error (.wrongType s!"decrement by {delta} would overflow"), c, []⟩ := by
          simp only [Cache.run, decrement, if_neg fits]
          rfl
        have effects := fun key => effect?_of_error key (congrArg Step.result unrun)
        rw [unrun]
        refine .idle effects fun key => ?_
        simp only [Action.looksUp, Bool.eq_false_iff.mpr fits, Bool.and_false]
  | fieldSet k field v =>
      exact turn_storeField none rfl rfl (beq_self_eq_true k) (fun _ => if_pos rfl) rfl
  | fieldSetFor k field v ttl =>
      exact turn_storeField (some ttl) rfl rfl (beq_self_eq_true k) (fun _ => if_pos rfl) rfl
  | fieldDelete k names => exact c.turn_fieldDelete k names

end Cache
end Local
end CacheFacade
