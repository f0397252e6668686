import CacheFacade.Proofs.Local.Lossless
import CacheFacade.Proofs.Plain.Composite

/-!
Numbers that are counted under a key. A key that held nothing holds, after any calls of increment
and decrement, the sum of what those of them added that went well; the others leave it. The sum
reads back as an integer of 64 bits, and has no deadline.
-/

namespace CacheFacade

/-- What a call adds to the number under a key. -/
def Action.addend? (key : String) : Action → Option Int
  | .increment k delta => if k = key then some delta else none
  | .decrement k delta => if k = key then some (-delta) else none
  | _ => none

namespace Local

theorem decode_text {s : Strategy} (legible : s ≠ .compact) {n : Int}
    (word : IntKind.i64.holds n = true) :
    (Codec.described s (.int .i64)).decode (Utf8.encode (Integer.text n)) = .ok (.int n) := by
  cases s with
  | plain =>
      have read : Plain.read (.int .i64) (Utf8.encode (Integer.text n)) = .ok (.int n) := by
        simp only [Plain.read, Plain.text_encode, bind, Except.bind, Plain.integer_text word]
        rfl
      exact Plain.ok_of_mapError.mpr read
  | document =>
      exact Plain.ok_of_mapError.mpr (Plain.read_of_spells (Json.spells_int word) (by decide))
  | compact => exact absurd rfl legible

namespace Cache

variable {c : Cache} {key : String} {a : Action} {t : Option Int}

/-- The sum under a key after an operation. -/
def tallied (c : Cache) (key : String) (a : Action) (t : Option Int) : Option Int :=
  match a.addend? key, (c.run a).result with
  | some n, .ok _ => some (t.getD 0 + n)
  | _, _ => t

/-- The key holds a sum without a deadline, or nothing as long as there is no sum. -/
structure Tallies (c : Cache) (key : String) (t : Option Int) : Prop where
  held : c.held key = t.map .counter
  word : ∀ n, t = some n → IntKind.i64.holds n = true
  lasting : ∀ e, c.Holds key e → e.deadline = none

theorem Tallies.increment_result (h : c.Tallies key t) (delta : Int) :
    (c.increment key delta).result =
      if IntKind.i64.holds (t.getD 0 + delta) then .ok (t.getD 0 + delta)
      else .error (.wrongType s!"increment of {c.keys.qualify key} would overflow") := by
  rw [Cache.increment_result, h.held]
  cases t <;> rfl

theorem Tallies.decrement_result (h : c.Tallies key t) (delta : Int) :
    (c.decrement key delta).result =
      if IntKind.i64.holds (-delta) then
        if IntKind.i64.holds (t.getD 0 - delta) then .ok (t.getD 0 - delta)
        else .error (.wrongType s!"increment of {c.keys.qualify key} would overflow")
      else .error (.wrongType s!"decrement by {delta} would overflow") := by
  rw [decrement, Int.sub_eq_add_neg, ← h.increment_result]
  split <;> rfl

theorem Tallies.next_of_adds (h : c.Tallies key t) {delta : Int}
    (addend : a.addend? key = some delta)
    (fits : ∀ r, (c.run a).result = .ok r → r = .number (t.getD 0 + delta) ∧
      IntKind.i64.holds (t.getD 0 + delta) = true)
    (effect : ∀ r, a.effect? key r = r.number?.map .counter) :
    c.next key a = (c.tallied key a t).map .counter ∧
      ∀ n, c.tallied key a t = some n → IntKind.i64.holds n = true := by
  cases result : (c.run a).result with
  | error f =>
      rw [tallied, addend, result, next_of_none (effect?_of_error key result)]
      exact ⟨h.held, h.word⟩
  | ok r =>
      obtain ⟨rfl, word⟩ := fits r result
      have told : c.effect? key a = some (.counter (t.getD 0 + delta)) :=
        (effect?_of_ok result).trans (effect _)
      rw [tallied, addend, result, next_of_some told]
      refine ⟨rfl, ?_⟩
      rintro n ⟨⟩
      exact word

/-- Every operation that counts on the key or leaves it alone goes on with its sum. -/
theorem Tallies.next (h : c.Tallies key t)
    (counts : (a.addend? key).isSome ∨ ∀ r, a.effect? key r = none) :
    c.next key a = (c.tallied key a t).map .counter ∧
      ∀ n, c.tallied key a t = some n → IntKind.i64.holds n = true := by
  cases added : a.addend? key with
  | none =>
      have silent : ∀ r, a.effect? key r = none := by
        obtain adds | silent := counts
        · rw [added] at adds
          cases adds
        · exact silent
      rw [tallied, added, next_of_none (effect?_of_silent silent)]
      exact ⟨h.held, h.word⟩
  | some delta =>
      cases a with
      | increment k d =>
          obtain ⟨rfl, ⟨⟩⟩ := Option.ite_none_right_eq_some.mp added
          refine h.next_of_adds added ?_ fun r => if_pos rfl
          intro r result
          change (c.increment k _).result.map Reply.number = .ok r at result
          rw [h.increment_result] at result
          split at result
          · cases result
            exact ⟨rfl, ‹_›⟩
          · cases result
      | decrement k d =>
          obtain ⟨rfl, ⟨⟩⟩ := Option.ite_none_right_eq_some.mp added
          refine h.next_of_adds added ?_ fun r => if_pos rfl
          intro r result
          change (c.decrement k _).result.map Reply.number = .ok r at result
          rw [h.decrement_result] at result
          split at result
          · split at result
            · cases result
              exact ⟨rfl, ‹_›⟩
            · cases result
          · cases result
      | _ => cases added

/-- What counts gives a lifetime only to a key that held nothing, and that is none. -/
theorem eq_never_of_chosen (counts : (a.addend? key).isSome ∨ ∀ r, a.effect? key r = none)
    {life : Expiry} (chosen : c.chosen? key a = some life) : life = .never := by
  obtain adds | silent := counts
  · cases a with
    | increment k d | decrement k d =>
        simp only [chosen?] at chosen
        split at chosen
        · split at chosen
          · cases chosen
          · cases chosen
            rfl
        · cases chosen
    | _ => cases adds
  · rw [chosen?_of_effect?_eq_none (effect?_of_silent silent)] at chosen
    cases chosen

end Cache

theorem Agree.eq_counter {held : Option Item} {t : Option Int}
    (agree : Agree held (t.map .counter)) : held = t.map .counter := by
  cases t with
  | none =>
      cases agree
      rfl
  | some n =>
      cases agree with
      | some alike =>
          cases alike
          rfl

/-- The operation counts on the key, or leaves it alone. -/
def Operation.Counts (key : String) : Operation → Prop
  | .act a => (a.addend? key).isSome ∨ ∀ r, a.effect? key r = none
  | .sleep _ | .tryLock _ | .giveBack _ => True
  | .lose _ | .close | .release => False

namespace State

variable {c : Config} {key : String} {t : Option Int} {past : List Operation}

/-- The sum under a key after an operation. -/
def tallied (s : State) (key : String) : Operation → Option Int → Option Int
  | .act a, t => s.cache.tallied key a t
  | _, t => t

/-- The sum of what those calls of increment and decrement added that went well. -/
def total? (s : State) (key : String) : List Operation → Option Int
  | [] => none
  | d :: past => (s.after past).tallied key d (s.total? key past)

/-- There is room for whatever an operation writes. -/
def Spacious (s : State) : Operation → Prop
  | .act a => s.cache.Spacious a
  | _ => True

/-- There is room for whatever operations write. -/
def Roomy (s : State) : List Operation → Prop
  | [] => True
  | d :: past => (s.after past).Spacious d ∧ s.Roomy past

theorem lasting_step {s : State} (tallies : s.cache.Tallies key t) (still : s.cache.touch = none)
    {d : Operation} (counts : d.Counts key) {e : Entry Item} (held : (s.step d).cache.Holds key e) :
    e.deadline = none := by
  obtain fixed | ⟨-, old, there, same⟩ := held_step held
  · cases d with
    | act a =>
        obtain ⟨life, chosen, same⟩ := Option.map_eq_some_iff.mp fixed
        rw [← same, Cache.eq_never_of_chosen counts chosen]
        rfl
    | _ => cases fixed
  · rw [same, dueKept_of_touch_eq_none still]
    exact tallies.lasting old there

theorem held_step_of_counts (tallies : ((opened c).after past).cache.Tallies key t) {d : Operation}
    (counts : d.Counts key) (room : ((opened c).after past).Spacious d) :
    (((opened c).after past).step d).cache.held key =
        (((opened c).after past).tallied key d t).map .counter ∧
      ∀ n, ((opened c).after past).tallied key d t = some n → IntKind.i64.holds n = true := by
  have same : (((opened c).after past).step d).cache.store = ((opened c).after past).cache.store →
      (((opened c).after past).step d).cache.now = ((opened c).after past).cache.now →
      (((opened c).after past).step d).cache.held key = t.map .counter := by
    intro store now
    rw [← tallies.held, Cache.held, store, now, keys_step]
    rfl
  cases d with
  | act a =>
      obtain ⟨next, word⟩ := tallies.next counts
      have agree := Cache.agree_run (renews_after c past) room
        (fun k fields held => sorted_of_held c past held) key
      rw [next] at agree
      exact ⟨agree.eq_counter, word⟩
  | sleep span =>
      have held := Cache.held_sleep tallies.lasting span
      exact ⟨held.trans tallies.held, tallies.word⟩
  | tryLock k =>
      refine ⟨same ?_ ?_, tallies.word⟩ <;>
        simp only [step] <;>
        split <;> rfl
  | giveBack g =>
      refine ⟨same ?_ ?_, tallies.word⟩ <;>
        simp only [step] <;>
        split <;> rfl
  | lose gone | close | release => exact counts.elim

theorem tallies_step (tallies : ((opened c).after past).cache.Tallies key t)
    (still : ((opened c).after past).cache.touch = none) {d : Operation} (counts : d.Counts key)
    (room : ((opened c).after past).Spacious d) :
    ((opened c).after (d :: past)).cache.Tallies key (((opened c).after past).tallied key d t) := by
  obtain ⟨held, word⟩ := held_step_of_counts tallies counts room
  exact ⟨held, word, fun e there => lasting_step tallies still counts there⟩

theorem after_append (s : State) (later past : List Operation) :
    s.after (later ++ past) = (s.after past).after later := by
  induction later with
  | nil => rfl
  | cons d later ih => exact congrArg (step · d) ih

theorem tallies_after (still : c.touch = false)
    (absent : ((opened c).after past).cache.held key = none) {later : List Operation}
    (counts : ∀ d ∈ later, d.Counts key) (room : ((opened c).after past).Roomy later) :
    (((opened c).after past).after later).cache.Tallies key
      (((opened c).after past).total? key later) := by
  induction later with
  | nil =>
      exact ⟨absent, nofun, fun e there => absurd there (Cache.held_eq_none_iff.mp absent e)⟩
  | cons d later ih =>
      obtain ⟨own, others⟩ := List.forall_mem_cons.mp counts
      have before := ih others room.2
      have untouched : ((opened c).after (later ++ past)).cache.touch = none := by
        rw [touch_after, still]
        rfl
      have room := room.1
      rw [← after_append] at before room
      have next := tallies_step before untouched own room
      rw [after, total?, ← after_append]
      exact next

/-- In a run whose keys, each at its largest, cost no more than the budget together, there is room
for everything that is written. -/
theorem roomy_of_demand {later : List Operation} (keeps : ∀ gone, .lose gone ∉ later ++ past)
    (within : c.demand (later ++ past) ≤ c.budget) : ((opened c).after past).Roomy later := by
  induction later with
  | nil => trivial
  | cons d later ih =>
      have earlier : c.demand (later ++ past) ≤ c.budget :=
        Nat.le_trans (c.demand_le_cons d _) within
      have kept : ∀ gone, .lose gone ∉ later ++ past :=
        fun gone member => keeps gone (List.mem_cons_of_mem _ member)
      refine ⟨?_, ih kept earlier⟩
      cases d with
      | act a =>
          rw [← after_append]
          exact spacious_of_demand (follows_after kept earlier) within
      | _ => trivial

/-- What calls find of a sum under a key. -/
structure Counting (s : State) (key : String) (t : Option Int) : Prop where
  increment : ∀ delta, (s.cache.increment key delta).result =
    if IntKind.i64.holds (t.getD 0 + delta) then .ok (t.getD 0 + delta)
    else .error (.wrongType s!"increment of {s.cache.keys.qualify key} would overflow")
  decrement : ∀ delta, IntKind.i64.holds delta = true → (s.cache.decrement key delta).result =
    if delta = IntKind.i64.least then .error (.wrongType s!"decrement by {delta} would overflow")
    else if IntKind.i64.holds (t.getD 0 - delta) then .ok (t.getD 0 - delta)
    else .error (.wrongType s!"increment of {s.cache.keys.qualify key} would overflow")
  get : (s.cache.get key).result = .ok (t.map .int)
  lasting : ∀ e, s.cache.Holds key e → e.deadline = none

theorem holds_neg_iff {delta : Int} (word : IntKind.i64.holds delta = true) :
    IntKind.i64.holds (-delta) = true ↔ delta ≠ IntKind.i64.least := by
  have least : IntKind.i64.least = -9223372036854775808 := rfl
  rw [IntKind.holds_i64_iff] at word ⊢
  omega

theorem counting_of_tallies {s : State} {strategy : Strategy} (legible : strategy ≠ .compact)
    (codec : s.cache.codec = .described strategy (.int .i64)) (tallies : s.cache.Tallies key t) :
    s.Counting key t := by
  refine ⟨tallies.increment_result, fun delta word => ?_, ?_, tallies.lasting⟩
  · rw [tallies.decrement_result]
    by_cases least : delta = IntKind.i64.least
    · rw [if_pos least, if_neg (mt (holds_neg_iff word).mp (not_not_intro least))]
    · rw [if_neg least, if_pos ((holds_neg_iff word).mpr least)]
  · rw [Cache.get_result, tallies.held, codec]
    cases t with
    | none => rfl
    | some n =>
        change Except.ok (Except.toOption _) = _
        rw [decode_text legible (tallies.word n rfl)]
        rfl

/-- From a key that holds nothing, in a cache of integers that does not touch and has room for what
is written, calls of increment and decrement count: each one adds to the sum of those before it that
went well, or fails and leaves it, and what is read is the sum, for good. -/
theorem counting_after (c : Config) {strategy : Strategy} (legible : strategy ≠ .compact)
    (codec : c.codec = .described strategy (.int .i64)) (still : c.touch = false)
    (key : String) (past : List Operation) (absent : ((opened c).after past).cache.held key = none)
    (later : List Operation) (counts : ∀ d ∈ later, d.Counts key)
    (room : ((opened c).after past).Roomy later) :
    (((opened c).after past).after later).Counting key
      (((opened c).after past).total? key later) := by
  apply counting_of_tallies legible _ (tallies_after still absent counts room)
  rw [← after_append, (openedWith_after c _).codec, codec]

/-- A cache of integers. -/
def numbers : Config := .ofCodec "c" (.described .plain (.int .i64))

/-- From one end of the range to the other, with calls that fail on the way, and a day between. -/
def swung : List Operation :=
  [.act (.decrement "k" 1), .act (.decrement "k" 1), .act (.decrement "k" 9223372036854775807),
    .act (.decrement "k" 9223372036854775807), .act (.decrement "k" (-9223372036854775808)),
    .sleep (.ofSeconds 86400), .act (.increment "k" 1), .act (.increment "k" 9223372036854775807)]

theorem counting_of_swung :
    ((opened numbers).after []).total? "k" swung = some (-9223372036854775808) ∧
      (((opened numbers).after []).after swung).Counting "k" (some (-9223372036854775808)) := by
  have keeps : ∀ gone, .lose gone ∉ swung ++ [] := by
    intro gone member
    simp [swung] at member
  have within : numbers.demand (swung ++ []) ≤ numbers.budget := by decide +kernel
  have counts : ∀ d ∈ swung, d.Counts "k" := by
    simp [swung, Operation.Counts, Action.addend?]
  have total : ((opened numbers).after []).total? "k" swung = some (-9223372036854775808) := by
    decide +kernel
  have counting := counting_after numbers (by decide) rfl rfl "k" [] rfl swung counts
    (roomy_of_demand keeps within)
  rw [total] at counting
  exact ⟨total, counting⟩

end State
end Local
end CacheFacade
