import CacheFacade.Proofs.Local.Coerced
import CacheFacade.Proofs.Local.Standing

/-!
What fails in a local cache, and what a failure leaves. An operation fails for what its key holds, or
for a number that leaves its range, and a lock is refused while another holder has it. All of that is
found out before anything is written, so every key holds what it held, and the locks are as they
were; only the look at the key may have renewed the deadline of its entry.
-/

namespace CacheFacade

/-- The operation asks for the fields of a hash. -/
inductive Action.AsksHash (key : String) : Action → Prop
  | fieldSet (field : String) (v : Val) : AsksHash key (.fieldSet key field v)
  | fieldSetFor (field : String) (v : Val) (ttl : Span) :
      AsksHash key (.fieldSetFor key field v ttl)
  | fields : AsksHash key (.fields key)
  | fieldDelete (names : List String) : AsksHash key (.fieldDelete key names)

/-- The operation adds to the number under a key. -/
inductive Action.Adds (key : String) : Int → Action → Prop
  | increment (delta : Int) : Adds key delta (.increment key delta)
  | decrement {delta : Int} (fits : IntKind.i64.holds (-delta) = true) :
      Adds key (-delta) (.decrement key delta)

namespace Local
namespace Cache

variable {c : Cache} {a : Action} {key : String} {f : Fault}

/-- The number that is added to. Nothing counts as zero, and a value as the integer that its text
spells. -/
def numberHeld (c : Cache) (key : String) : Option Int :=
  match c.held key with
  | none => some 0
  | some (.counter n) => some n
  | some (.value v) => (c.codec.encode v).toOption.bind integerOf
  | some (.hash _) => none

/-- Why nothing is added to a number. -/
inductive Uncounted (c : Cache) (key : String) (delta : Int) : Fault → Prop
  | hash {fields : List (String × Val)} (held : c.held key = some (.hash fields)) :
      Uncounted c key delta (.wrongType s!"{c.keys.qualify key} holds a hash, not an integer")
  | unwritten {v : Val} {g : Codec.WriteFault} (held : c.held key = some (.value v))
      (failed : c.codec.encode v = .error g) : Uncounted c key delta (.serialization g.message)
  | unread {v : Val} {bs : Bytes} (held : c.held key = some (.value v))
      (written : c.codec.encode v = .ok bs) (none : integerOf bs = none) :
      Uncounted c key delta (notInteger (c.keys.qualify key))
  | overflow {n : Int} (number : c.numberHeld key = some n)
      (beyond : IntKind.i64.holds (n + delta) = false) :
      Uncounted c key delta (.wrongType s!"increment of {c.keys.qualify key} would overflow")

/-- Why an operation fails. -/
inductive Refuses (c : Cache) : Action → Fault → Prop
  | notHash {a : Action} {key : String} {item : Item} (asks : a.AsksHash key)
      (held : c.held key = some item) (other : ∀ fields, item ≠ .hash fields) :
      Refuses c a (notHash (c.keys.qualify key))
  | uncounted {a : Action} {key : String} {delta : Int} {f : Fault} (adds : a.Adds key delta)
      (fault : c.Uncounted key delta f) : Refuses c a f
  | negated {key : String} {delta : Int} (beyond : IntKind.i64.holds (-delta) = false) :
      Refuses c (.decrement key delta) (.wrongType s!"decrement by {delta} would overflow")

theorem map_eq_error_iff {α β : Type} (g : α → β) {r : Except Fault α} :
    r.map g = .error f ↔ r = .error f := by
  cases r <;> simp [Except.map]

theorem increment_of_numberHeld {n : Int} (number : c.numberHeld key = some n) (delta : Int) :
    (c.increment key delta).result =
      if IntKind.i64.holds (n + delta) then .ok (n + delta)
      else .error (.wrongType s!"increment of {c.keys.qualify key} would overflow") := by
  have read : ((c.held key).elim (.ok 0) fun item =>
      (itemInteger c.codec (c.keys.qualify key) item).1) = .ok n := by
    rw [numberHeld] at number
    cases held : c.held key with
    | none =>
        rw [held] at number
        cases number
        rfl
    | some item =>
        rw [held] at number
        cases item with
        | counter m =>
            cases number
            rfl
        | hash fields => cases number
        | value v =>
            obtain ⟨bs, written, spelled⟩ := Option.bind_eq_some_iff.mp number
            have encoded := toOption_eq_some.mp written
            simp only [Option.elim_some, itemInteger, encoded, spelled]
  rw [increment_result, read]

/-- Nothing is added to what counts as no number, and nothing beyond the range of numbers. -/
theorem increment_eq_error_iff (delta : Int) :
    (c.increment key delta).result = .error f ↔ c.Uncounted key delta f := by
  constructor
  · intro failed
    have overflows : ∀ {n : Int}, c.numberHeld key = some n → c.Uncounted key delta f := by
      intro n number
      rw [increment_of_numberHeld number] at failed
      split at failed
      next => cases failed
      next beyond =>
          cases failed
          exact .overflow number (Bool.eq_false_iff.mpr beyond)
    rw [increment_result] at failed
    cases held : c.held key with
    | none => exact overflows (n := 0) (by rw [numberHeld, held])
    | some item =>
        rw [held] at failed
        cases item with
        | counter n => exact overflows (n := n) (by rw [numberHeld, held])
        | hash fields =>
            cases failed
            exact .hash held
        | value v =>
            cases written : c.codec.encode v with
            | error g =>
                simp only [Option.elim_some, itemInteger, written] at failed
                cases failed
                exact .unwritten held written
            | ok bs =>
                cases number : integerOf bs with
                | none =>
                    simp only [Option.elim_some, itemInteger, written, number] at failed
                    cases failed
                    exact .unread held written number
                | some n =>
                    apply overflows (n := n)
                    simp only [numberHeld, held, written]
                    exact number
  · intro fault
    cases fault with
    | hash held => rw [increment_result, held]; rfl
    | unwritten held failed =>
        rw [increment_result, held]
        simp only [Option.elim_some, itemInteger, failed]
    | unread held written none =>
        rw [increment_result, held]
        simp only [Option.elim_some, itemInteger, written, none]
    | overflow number beyond =>
        rw [increment_of_numberHeld number, if_neg (Bool.eq_false_iff.mp beyond)]

theorem run_eq_error_iff_of_asksHash (asks : a.AsksHash key) :
    (c.run a).result = .error f ↔ ∃ item, c.held key = some item ∧
      (∀ fields, item ≠ .hash fields) ∧ f = notHash (c.keys.qualify key) := by
  cases held : c.held key with
  | none =>
      cases asks <;> simp [run, Step.map, map_eq_error_iff, storeField_result, fields_result,
        fieldDelete_result, held]
  | some item =>
      cases asks <;>
        simp only [run, Step.map, map_eq_error_iff, storeField_result, fields_result,
          fieldDelete_result, held] <;>
        cases item <;> simp [eq_comm]

/-- An operation fails for one of these reasons, and for no other. -/
theorem run_eq_error_iff : (c.run a).result = .error f ↔ c.Refuses a f := by
  have hashless : ∀ {key : String}, a.AsksHash key → (c.run a).result = .error f →
      c.Refuses a f := by
    intro key asks failed
    obtain ⟨item, held, other, rfl⟩ := (run_eq_error_iff_of_asksHash asks).mp failed
    exact .notHash asks held other
  constructor
  · intro failed
    cases a with
    | fieldSet k field v => exact hashless (.fieldSet field v) failed
    | fieldSetFor k field v ttl => exact hashless (.fieldSetFor field v ttl) failed
    | fields k => exact hashless .fields failed
    | fieldDelete k names => exact hashless (.fieldDelete names) failed
    | increment k delta =>
        rw [run, Step.map, map_eq_error_iff, increment_eq_error_iff] at failed
        exact .uncounted (.increment delta) failed
    | decrement k delta =>
        rw [run, Step.map, map_eq_error_iff, decrement] at failed
        split at failed
        next fits => exact .uncounted (.decrement fits) ((increment_eq_error_iff _).mp failed)
        next beyond =>
            cases failed
            exact .negated (Bool.eq_false_iff.mpr beyond)
    | get _ | set _ _ | setFor _ _ _ | delete _ | deleteAll _ | expire _ _ | fieldGet _ _
    | fieldExpire _ _ _ | fieldTtl _ _ => cases failed
  · intro refused
    cases refused with
    | notHash asks held other =>
        exact (run_eq_error_iff_of_asksHash asks).mpr ⟨_, held, other, rfl⟩
    | uncounted adds fault =>
        cases adds with
        | increment =>
            rw [run, Step.map, map_eq_error_iff]
            exact (increment_eq_error_iff _).mpr fault
        | decrement fits =>
            rw [run, Step.map, map_eq_error_iff, decrement, if_pos fits]
            exact (increment_eq_error_iff _).mpr fault
    | negated beyond =>
        rw [run, Step.map, map_eq_error_iff, decrement, if_neg (Bool.eq_false_iff.mp beyond)]

theorem state_of_error (failed : (c.run a).result = .error f) :
    (c.run a).state = c ∨ ∃ k, (c.run a).state = (c.lookUp k).2 := by
  have silent : ∀ {k : String} {e : Effect}, c.effect? k a ≠ some e := by
    intro k e effect
    rw [effect?_of_error k failed] at effect
    cases effect
  have turn := c.turn_run a
  generalize (c.run a).state = d at turn ⊢
  cases turn with
  | idle => exact .inl rfl
  | seen => exact .inr ⟨_, rfl⟩
  | missed single looks effect | put single looks effect | rewritten single looks effect
  | emptied single looks effect => exact absurd effect silent
  | removed effects =>
      have nothing : a.keys = [] :=
        List.eq_nil_iff_forall_not_mem.mpr fun k named => silent (effects k named)
      rw [nothing]
      exact .inl rfl

/-- A look leaves what stands under every key, its deadline apart. -/
theorem find?_lookUp (tidy : c.store.Tidy) (k other : String) :
    ∃ due : Entry Item → Option Nat, (c.lookUp k).2.store.find? other =
        (c.store.find? other).map (fun e => { e with deadline := due e }) ∧
      (c.touch = none → ∀ e, due e = e.deadline) := by
  cases found : c.store.live? k c.now with
  | none =>
      refine ⟨Entry.deadline, ?_, fun _ _ => rfl⟩
      have same : (c.lookUp k).2.store.find? other = c.store.find? other :=
        congrArg (List.find? _) (Store.entries_read_of_none found)
      rw [same]
      exact (Option.map_id' ..).symm
  | some e =>
      obtain ⟨member, own, -⟩ := Store.mem_of_live? found
      by_cases named : other = k
      · subst named
        refine ⟨fun e => touched c.now c.touch e.deadline, ?_, fun still e => by rw [still]; rfl⟩
        have before : c.store.find? other = some e := Store.find?_of_mem tidy.nodup member own
        rw [before]
        exact Store.find?_read_of_live? found
      · refine ⟨Entry.deadline, ?_, fun _ _ => rfl⟩
        have same := @Store.find?_read_of_ne _ c.store k other c.now c.touch named fun _ => true
        simp only [Bool.and_true] at same
        exact same.trans (Option.map_id' ..).symm

end Cache

namespace State

/-- The operations that may fail, and the taking of locks. -/
inductive Fails (s : State) : Operation → Fault → Prop
  | act {a : Action} {f : Fault} (failed : (s.cache.run a).result = .error f) : Fails s (.act a) f
  | tryLock {key : String} {f : Fault} (failed : (s.cache.tryLock key).result = .error f) :
      Fails s (.tryLock key) f

/-- Why an operation fails. -/
inductive Refuses (s : State) : Operation → Fault → Prop
  | act {a : Action} {f : Fault} (refused : s.cache.Refuses a f) : Refuses s (.act a) f
  /-- The holder of the lock is not past its deadline. -/
  | locked {key : String} {h : Lock.Holder} (reckons : s.cache.Reckons)
      (holds : h ∈ s.locks.holders) (own : h.key = s.cache.keys.qualify key)
      (early : s.cache.now < h.deadline) : Refuses s (.tryLock key) .notLocked
  /-- A try without a deadline does not even come back with a fault; it changes no more than the
  others. -/
  | late {key : String} (beyond : ¬ s.cache.Reckons) :
      Refuses s (.tryLock key) (.panicked Clock.overflow)

/-- Keys and locks are the same in two states. A look at a key may have renewed the deadline of its
entry, in a cache that touches. -/
structure Unharmed (s s' : State) : Prop where
  clock : s'.cache.now = s.cache.now
  items : ∀ k, (s'.cache.store.find? k).map Entry.value = (s.cache.store.find? k).map Entry.value
  /-- What is past its deadline stays so. -/
  found : ∀ k, (s'.cache.store.live? k s.cache.now).map Entry.value =
    (s.cache.store.live? k s.cache.now).map Entry.value
  entries : s.cache.touch = none → ∀ k, s'.cache.store.find? k = s.cache.store.find? k
  holders : s'.locks.holders = s.locks.holders
  signals : ∀ n, s'.locks.isCancelled n = s.locks.isCancelled n

theorem unharmed_of_lookUp {s : State} (renews : Renews s.cache.touch)
    (tidy : s.cache.store.Tidy) (k : String) : s.Unharmed (s.withCache (s.cache.lookUp k).2) := by
  have stored : ∀ other, ((s.cache.lookUp k).2.store.find? other).map Entry.value =
      (s.cache.store.find? other).map Entry.value ∧ (s.cache.touch = none →
        (s.cache.lookUp k).2.store.find? other = s.cache.store.find? other) := by
    intro other
    obtain ⟨due, same, still⟩ := s.cache.find?_lookUp tidy k other
    rw [same, Option.map_map]
    refine ⟨rfl, fun none => ?_⟩
    simp only [still none]
    exact Option.map_id' ..
  exact ⟨rfl, fun other => (stored other).1, Cache.found_lookUp renews k,
    fun still other => (stored other).2 still, rfl, fun _ => rfl⟩

theorem unharmed_of_fails {s : State} (renews : Renews s.cache.touch)
    (tidy : s.cache.store.Tidy) {d : Operation} {f : Fault} (fails : s.Fails d f) :
    s.Unharmed (s.step d) := by
  cases fails with
  | act failed =>
      obtain same | ⟨k, looked⟩ := Cache.state_of_error failed
      · rw [step, same]
        exact ⟨rfl, fun _ => rfl, fun _ => rfl, fun _ _ => rfl, rfl, fun _ => rfl⟩
      · rw [step, looked]
        exact unharmed_of_lookUp renews tidy k
  | @tryLock key f failed =>
      have unchanged : (s.step (.tryLock key)).cache.store = s.cache.store ∧
          (s.step (.tryLock key)).cache.now = s.cache.now := by
        simp only [step, failed]
        exact ⟨rfl, rfl⟩
      have denied : ¬ ∃ g, (s.cache.tryLock key).result = .ok g := by
        rintro ⟨g, taken⟩
        cases failed.symm.trans taken
      obtain ⟨-, holders, signalled⟩ := s.tryLock_of_not_granted denied
      refine ⟨unchanged.2, fun k => ?_, fun k => ?_, fun _ k => ?_, holders, fun n => ?_⟩
      · rw [unchanged.1]
      · rw [unchanged.1]
      · rw [unchanged.1]
      · rw [Lock.Table.isCancelled, signalled]
        rfl

/-- A lock is refused just while its holder is not past the deadline, and no try comes back when the
clock does not come to the deadline of its own. -/
theorem Settled.tryLock_eq_error_iff {s : State} (settled : s.Settled) {key : String} {f : Fault} :
    (s.cache.tryLock key).result = .error f ↔
      (f = .notLocked ∧ s.cache.Reckons ∧
        ∃ h ∈ s.locks.holders, h.key = s.cache.keys.qualify key ∧ s.cache.now < h.deadline) ∨
      f = .panicked Clock.overflow ∧ ¬ s.cache.Reckons := by
  have granted : (∃ g, (s.cache.tryLock key).result = .ok g) ↔ s.cache.Reckons ∧
      ∀ h ∈ s.locks.holders, h.key = s.cache.keys.qualify key → h.deadline ≤ s.cache.now := by
    rw [result_tryLock]
    exact Lock.Table.take_ok_iff settled.table _ _ _
  have open_iff : (∀ h ∈ s.locks.holders, h.key = s.cache.keys.qualify key →
      h.deadline ≤ s.cache.now) ↔
        ¬ ∃ h ∈ s.locks.holders, h.key = s.cache.keys.qualify key ∧ s.cache.now < h.deadline := by
    push Not
    rfl
  rw [open_iff] at granted
  constructor
  · intro failed
    have denied : ¬ ∃ g, (s.cache.tryLock key).result = .ok g := by
      rintro ⟨g, taken⟩
      cases failed.symm.trans taken
    have told := failed.symm.trans (s.tryLock_of_not_granted denied).1
    split at told
    next early =>
        cases told
        exact .inl ⟨rfl, early, not_not.mp fun none => denied (granted.mpr ⟨early, none⟩)⟩
    next late =>
        cases told
        exact .inr ⟨rfl, late⟩
  · rintro (⟨rfl, early, held⟩ | ⟨rfl, late⟩)
    · have denied := mt granted.mp fun taken => taken.2 held
      exact (s.tryLock_of_not_granted denied).1.trans (if_pos early)
    · have denied := mt granted.mp fun taken => late taken.1
      exact (s.tryLock_of_not_granted denied).1.trans (if_neg late)

theorem Settled.fails_iff_refuses {s : State} (settled : s.Settled) {d : Operation} {f : Fault} :
    s.Fails d f ↔ s.Refuses d f := by
  constructor
  · intro fails
    cases fails with
    | act failed => exact .act (Cache.run_eq_error_iff.mp failed)
    | tryLock failed =>
        obtain ⟨rfl, early, h, holds, own, standing⟩ | ⟨rfl, late⟩ :=
          settled.tryLock_eq_error_iff.mp failed
        · exact .locked early holds own standing
        · exact .late late
  · intro refused
    cases refused with
    | act refused => exact .act (Cache.run_eq_error_iff.mpr refused)
    | locked reckons holds own early =>
        exact .tryLock (settled.tryLock_eq_error_iff.mpr (.inl ⟨rfl, reckons, _, holds, own, early⟩))
    | late beyond => exact .tryLock (settled.tryLock_eq_error_iff.mpr (.inr ⟨rfl, beyond⟩))

/-- What fails in a state, and what it leaves. -/
structure Careful (s : State) : Prop where
  refuses : ∀ d f, s.Fails d f ↔ s.Refuses d f
  unharmed : ∀ d f, s.Fails d f → s.Unharmed (s.step d)

/-- In every run of a local cache, what fails does so for one of the reasons given, and leaves all
keys and locks as they were. Only a cache that touches is left with another deadline. -/
theorem careful_after (c : Config) (ops : List Operation) :
    ((opened c).after ops).Careful ∧
      ((opened c).after ops).cache.touch = if c.touch then c.ttl else none := by
  refine ⟨⟨fun d f => ?_, fun d f fails => ?_⟩, touch_after c ops⟩
  · exact ((settled_opened c).after ops).fails_iff_refuses
  · exact unharmed_of_fails (renews_after c ops) (tidy_after c ops).1 fails

example : ((opened (.ofCodec "users" (.described .plain .text))).after
    [.act (.set "alice" (.text "admin"))]).Fails (.act (.fieldSet "alice" "role" (.text "admin")))
      (.wrongType "users:alice does not hold a hash") :=
  .act rfl

end State
end Local
end CacheFacade
