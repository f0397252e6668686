import CacheFacade.Proofs.Local.Answers

/-!
No loss within the budget. As long as the keys of a run, each at its largest, cost no more than the
budget together, there is room for every write, and what the keys hold is what the replay of the run
on a plain map says, at every point of it.
-/

namespace CacheFacade
namespace Local

namespace Store

/-- Entries of different keys cost no more together than their keys allow. -/
theorem totalCost_le_sum (name : String → String) {entries : List (Entry Item)}
    {keys : Finset String} {limit : String → Nat} (nodup : (entries.map Entry.key).Nodup)
    (within : ∀ e ∈ entries, ∃ k ∈ keys, e.key = name k ∧ e.cost ≤ limit k) :
    totalCost entries ≤ keys.sum limit := by
  induction entries generalizing keys with
  | nil => exact Nat.zero_le _
  | cons e entries ih =>
      obtain ⟨others, nodupRest⟩ := List.nodup_cons.mp nodup
      obtain ⟨k, known, own, cost⟩ := within e List.mem_cons_self
      have rest : totalCost entries ≤ (keys.erase k).sum limit := by
        apply ih nodupRest
        intro d member
        obtain ⟨k', known', own', cost'⟩ := within d (List.mem_cons_of_mem _ member)
        refine ⟨k', Finset.mem_erase.mpr ⟨?_, known'⟩, own', cost'⟩
        rintro rfl
        exact others (own.trans own'.symm ▸ List.mem_map_of_mem member)
      rw [totalCost, ← Finset.add_sum_erase keys limit known]
      exact Nat.add_le_add cost rest

end Store

namespace Cache

/-- What an operation leaves past its deadline stood there before: what it writes is not over. -/
theorem Source.mem_of_past {c : Cache} {key : String} {a : Action} {e : Entry Item}
    (source : c.Source key a e) (renews : Renews c.touch) (past : e.isLive c.now = false) : e ∈ c.store.entries := by
  have late : ¬ lives c.now e.deadline = true := Bool.eq_false_iff.mp past
  cases source with
  | stale none member past => exact member
  | chosen life chosen same =>
      obtain ⟨rfl, fresh⟩ := of_chosen chosen
      rw [same] at late
      exact absurd (lives_deadline (positive_lifeGiven ..) fun keep => absurd keep fresh) late
  | kept none old held same =>
      rw [same, dueKept] at late
      split at late
      · exact absurd (Store.isLive_touched renews held.live) late
      · exact absurd held.live late

end Cache

namespace State

section Run

variable {c : Config} {ops past : List Operation}

theorem openedWith_after (c : Config) (ops : List Operation) :
    ((opened c).after ops).cache.OpenedWith c := by
  induction ops with
  | nil => exact ⟨rfl, rfl, rfl, rfl⟩
  | cons d past ih =>
      rw [after, alike_step]
      exact ⟨ih.keys, ih.codec, ih.ttl, ih.touch⟩

theorem keys_after (c : Config) (ops : List Operation) :
    ((opened c).after ops).cache.keys = ⟨c.name⟩ := (openedWith_after c ops).keys

theorem now_after (c : Config) (ops : List Operation) :
    ((opened c).after ops).cache.now = clock ops := by
  induction ops with
  | nil => rfl
  | cons d past ih =>
      rw [after]
      generalize (opened c).after past = s at ih
      have turn := s.cacheStep d
      generalize (s.step d).cache = c at turn ⊢
      cases turn with
      | act a =>
          rw [s.cache.alike_run a]
          exact ih
      | sleep span => exact congrArg (· + span.nanos) ih
      | lose gone => exact ih
      | locked awake locks | emptied awake locks =>
          rw [clock_cons_of_awake awake]
          exact ih

theorem released_step (s : State) (d : Operation) :
    (s.step d).service.released = (s.service.released || d.isRelease) := by
  cases d with
  | tryLock key =>
      simp only [step]
      split <;> exact (Bool.or_false _).symm
  | giveBack g =>
      simp only [step]
      split <;> exact (Bool.or_false _).symm
  | release =>
      simp only [step, Service.release, Operation.isRelease, Bool.or_true]
      split
      · assumption
      · rfl
  | _ => exact (Bool.or_false _).symm

theorem released_after (c : Config) (ops : List Operation) :
    ((opened c).after ops).service.released = released ops := by
  induction ops with
  | nil => rfl
  | cons d past ih =>
      rw [after, released_step, ih]
      cases d <;> simp [released, Operation.isRelease]

theorem exists_named (c : Config) (ops : List Operation) {e : Entry Item}
    (member : e ∈ ((opened c).after ops).cache.store.entries) :
    ∃ k ∈ named ops, e.key = (⟨c.name⟩ : KeySpace).qualify k := by
  induction ops with
  | nil => cases member
  | cons d past ih =>
      have before : e ∈ ((opened c).after past).cache.store.entries →
          ∃ k ∈ named (d :: past), e.key = (⟨c.name⟩ : KeySpace).qualify k := by
        intro old
        obtain ⟨k, known, own⟩ := ih old
        obtain ⟨d', known, names⟩ := mem_named.mp known
        exact ⟨k, mem_named.mpr ⟨d', List.mem_cons_of_mem _ known, names⟩, own⟩
      by_cases acts : ∃ a, d = .act a
      · obtain ⟨a, rfl⟩ := acts
        by_cases touched : e.key ∈ a.keys.map (⟨c.name⟩ : KeySpace).qualify
        · obtain ⟨k, names, own⟩ := List.mem_map.mp touched
          exact ⟨k, mem_named.mpr ⟨_, List.mem_cons_self, names⟩, own.symm⟩
        · have works := ((opened c).after past).cache.works_run a
          rw [keys_after] at works
          exact before (works.spares touched member rfl)
      · exact before (mem_of_mem_step (fun a same => acts ⟨a, same⟩) member)

/-- What is past its deadline was written before: what an operation writes is not over at once. -/
theorem mem_of_past (c : Config) {d : Operation} {past : List Operation} {e : Entry Item}
    (member : e ∈ ((opened c).after (d :: past)).cache.store.entries)
    (late : e.isLive ((opened c).after (d :: past)).cache.now = false) :
    e ∈ ((opened c).after past).cache.store.entries := by
  by_cases acts : ∃ a, d = .act a
  · obtain ⟨a, rfl⟩ := acts
    obtain ⟨key, -, own⟩ := exists_named c _ member
    rw [← keys_after c past] at own
    have same : ((opened c).after (.act a :: past)).cache.now = ((opened c).after past).cache.now := by
      rw [now_after, now_after]
      rfl
    rw [same] at late
    exact (Cache.Source.of_run a member own).mem_of_past (renews_after c past) late
  · exact mem_of_mem_step (fun a same => acts ⟨a, same⟩) member

theorem sorted_of_mem (c : Config) (ops : List Operation) {e : Entry Item}
    (member : e ∈ ((opened c).after ops).cache.store.entries) {fields : List (String × Val)}
    (value : e.value = .hash fields) : Sorted fields := by
  induction ops with
  | nil => cases member
  | cons d past ih =>
      cases live : e.isLive ((opened c).after (d :: past)).cache.now with
      | false => exact ih (mem_of_past c member live)
      | true =>
          obtain ⟨key, -, own⟩ := exists_named c _ member
          rw [← keys_after c (d :: past)] at own
          have told := (vouches_after c key (d :: past) e member own live).told
          rw [value] at told
          exact told.1

theorem sorted_of_held (c : Config) (ops : List Operation) {key : String}
    {fields : List (String × Val)}
    (held : ((opened c).after ops).cache.held key = some (.hash fields)) : Sorted fields := by
  obtain ⟨e, found, value⟩ := Option.map_eq_some_iff.mp held
  exact sorted_of_mem c ops (Store.mem_of_live? found).1 value

/-- The cache holds what the plain map holds, and until the same instants, and what stands in its
store costs no more than its keys came to. -/
structure Follows (c : Config) (ops : List Operation) : Prop where
  items : ∀ key, Agree (((opened c).after ops).cache.held key) (c.contents key ops)
  dues : ∀ key k, c.kept key ops = some k → k.due = (opened c).due key ops
  costs : ∀ e ∈ ((opened c).after ops).cache.store.entries, ∀ key,
    e.key = (⟨c.name⟩ : KeySpace).qualify key → e.cost ≤ c.peak key ops

theorem cost_le_peak_of_live {e : Entry Item} {key : String}
    (items : Agree (((opened c).after ops).cache.held key) (c.contents key ops))
    (member : e ∈ ((opened c).after ops).cache.store.entries)
    (own : e.key = (⟨c.name⟩ : KeySpace).qualify key)
    (live : e.isLive ((opened c).after ops).cache.now = true) : e.cost ≤ c.peak key ops := by
  have tidy := (tidy_after c ops).1
  have held : ((opened c).after ops).cache.held key = some e.value := by
    rw [Cache.held, keys_after, Store.live?_of_mem tidy.nodup member own live]
    rfl
  have same := items.costOf_eq
  rw [held] at same
  calc
    e.cost = e.value.cost := tidy.priced e member
    _ = costOf (c.contents key ops) := same
    _ ≤ c.peak key ops := c.costOf_contents_le_peak key ops

/-- What is past its deadline cost its key as much before. -/
theorem Follows.cons (follows : Follows c past) {d : Operation}
    (items : ∀ key, Agree (((opened c).after (d :: past)).cache.held key)
      (c.contents key (d :: past)))
    (dues : ∀ key k, c.kept key (d :: past) = some k → k.due = (opened c).due key (d :: past)) :
    Follows c (d :: past) := by
  refine ⟨items, dues, fun e member key own => ?_⟩
  cases live : e.isLive ((opened c).after (d :: past)).cache.now with
  | true => exact cost_le_peak_of_live (items key) member own live
  | false =>
      have before := follows.costs e (mem_of_past c member live) key own
      exact Nat.le_trans before (Nat.le_max_right ..)

theorem hasRoom_of_demand (follows : Follows c past) {d : Operation}
    (within : c.demand (d :: past) ≤ c.budget) {key : String} (known : key ∈ d.keys) {item : Item}
    (cost : item.cost ≤ c.peak key (d :: past)) :
    ((opened c).after past).cache.HasRoom key item := by
  obtain ⟨tidy, budget⟩ := tidy_after c past
  have asked : key ∈ named (d :: past) := mem_named.mpr ⟨d, List.mem_cons_self, known⟩
  have keys := keys_after c past
  have rest : Store.totalCost (Store.without (KeySpace.qualify ⟨c.name⟩ key)
      ((opened c).after past).cache.store.entries) ≤
        ((named (d :: past)).erase key).sum fun k => c.peak k (d :: past) := by
    apply Store.totalCost_le_sum (⟨c.name⟩ : KeySpace).qualify
    · exact tidy.nodup.sublist (List.filter_sublist.map _)
    · intro e member
      obtain ⟨there, other⟩ := Store.mem_without.mp member
      obtain ⟨k, names, own⟩ := exists_named c past there
      refine ⟨k, Finset.mem_erase.mpr ⟨?_, ?_⟩, own, ?_⟩
      · rintro rfl
        exact other own
      · obtain ⟨d', old, names⟩ := mem_named.mp names
        exact mem_named.mpr ⟨d', List.mem_cons_of_mem _ old, names⟩
      · exact Nat.le_trans (follows.costs e there k own) (Nat.le_max_right ..)
  rw [Cache.HasRoom, keys, budget]
  calc
    _ ≤ ((named (d :: past)).erase key).sum (fun k => c.peak k (d :: past)) +
        c.peak key (d :: past) := Nat.add_le_add rest cost
    _ = c.demand (d :: past) := Finset.sum_erase_add _ _ asked
    _ ≤ c.budget := within

theorem agree_next (follows : Follows c past) (a : Action) (key : String) :
    Agree (((opened c).after past).cache.next key a) (c.contents key (.act a :: past)) := by
  have effect := Cache.effect?_eq (openedWith_after c past) key a
  rw [Config.contents_of_not_sleep fun span => Operation.noConfusion, Cache.next, effect,
    (follows.items key).effectOn_eq]
  change Agree ((c.effectOn key (c.contents key past) a).elim _ _)
    ((c.effectOn key (c.contents key past) a).elim _ _)
  cases c.effectOn key (c.contents key past) a with
  | none => exact follows.items key
  | some e => exact (follows.items key).apply e

theorem spacious_of_demand (follows : Follows c past) {a : Action}
    (within : c.demand (.act a :: past) ≤ c.budget) :
    ((opened c).after past).cache.Spacious a := by
  intro k names item next
  apply hasRoom_of_demand follows within names
  have same := (agree_next follows a k).costOf_eq
  rw [next] at same
  exact Nat.le_trans (Nat.le_of_eq same) (c.costOf_contents_le_peak k (.act a :: past))

theorem follows_act (follows : Follows c past) {a : Action}
    (within : c.demand (.act a :: past) ≤ c.budget) : Follows c (.act a :: past) := by
  have spacious := spacious_of_demand follows within
  refine follows.cons ?_ ?_
  · intro key
    have done := Cache.agree_run (renews_after c past) spacious
      (fun k fields held => sorted_of_held c past held) key
    exact done.trans (agree_next follows a key)
  · intro key k there
    apply Cache.due_of_keptBy (openedWith_after c past) (follows.items key) (follows.dues key)
    rw [now_after]
    exact there

theorem follows_sleep (follows : Follows c past) (span : Span) : Follows c (.sleep span :: past) := by
  refine follows.cons ?_ ?_
  · intro key
    have due : ∀ e, ((opened c).after past).cache.Holds key e →
        e.deadline = (opened c).due key past :=
      fun e held => (vouches_after c key past e held.member held.own held.live).deadline
    have held := Cache.held_sleep due span
    rw [now_after] at held
    have items := follows.items key
    change Agree ((((opened c).after past).cache.sleep span).held key) _
    rw [held]
    simp only [Config.contents, Config.kept] at items ⊢
    cases there : c.kept key past with
    | none =>
        rw [there] at items
        cases none : ((opened c).after past).cache.held key with
        | none =>
            rw [ite_self]
            exact .none
        | some item =>
            rw [none] at items
            cases items
    | some k =>
        rw [there] at items
        rw [Option.filter_some, follows.dues key k there]
        split
        · exact items
        · exact .none
  · intro key k there
    simp only [Config.kept] at there
    exact follows.dues key k (Option.filter_eq_some_iff.mp there).1

theorem follows_step (follows : Follows c past) {d : Operation} (keeps : ∀ gone, d ≠ .lose gone)
    (within : c.demand (d :: past) ≤ c.budget) : Follows c (d :: past) := by
  have empty : ((opened c).after (d :: past)).cache.store.entries = [] →
      (∀ key, c.kept key (d :: past) = none) → Follows c (d :: past) := by
    intro cleared gone
    refine follows.cons ?_ ?_
    · intro key
      rw [Config.contents, gone, Cache.held, Store.live?, cleared]
      exact .none
    · intro key k there
      rw [gone] at there
      cases there
  have same : ((opened c).after (d :: past)).cache.store = ((opened c).after past).cache.store →
      ((opened c).after (d :: past)).cache.now = ((opened c).after past).cache.now →
      (∀ key, c.kept key (d :: past) = c.kept key past) →
        (∀ key, (opened c).due key (d :: past) = (opened c).due key past) →
          Follows c (d :: past) := by
    intro store now still due
    refine follows.cons ?_ ?_
    · intro key
      rw [Config.contents, still, Cache.held, store, now, keys_after, ← keys_after c past]
      exact follows.items key
    · intro key k there
      rw [still] at there
      rw [due]
      exact follows.dues key k there
  cases d with
  | act a => exact follows_act follows within
  | sleep span => exact follows_sleep follows span
  | lose gone => exact absurd rfl (keeps gone)
  | tryLock k =>
      apply same
      · simp only [after, step]
        split <;> rfl
      · simp only [after, step]
        split <;> rfl
      · exact fun key => rfl
      · exact fun key => rfl
  | giveBack g =>
      apply same
      · simp only [after, step]
        split <;> rfl
      · simp only [after, step]
        split <;> rfl
      · exact fun key => rfl
      · exact fun key => rfl
  | close => exact empty rfl fun key => rfl
  | release =>
      have gone := released_after c past
      cases again : released past with
      | true =>
          apply same
          · simp only [after, step, Service.release, gone, again, if_true]
          · simp only [after, step, Service.release, gone, again, if_true]
          · intro key
            simp only [Config.kept, again, if_true]
          · exact fun key => rfl
      | false =>
          apply empty
          · simp only [after, step, Service.release, gone, again]
            rfl
          · intro key
            simp only [Config.kept, again]
            rfl

/-- As long as the cost that a run can come to is within the budget, nothing is lost. -/
theorem follows_after (keeps : ∀ gone, .lose gone ∉ ops) (within : c.demand ops ≤ c.budget) :
    Follows c ops := by
  induction ops with
  | nil =>
      refine ⟨fun key => .none, fun key k there => ?_, fun e member => absurd member List.not_mem_nil⟩
      cases there
  | cons d past ih =>
      apply follows_step (d := d)
      · apply ih
        · exact fun gone member => keeps gone (List.mem_cons_of_mem _ member)
        · exact Nat.le_trans (c.demand_le_cons d past) within
      · rintro gone rfl
        exact keeps gone List.mem_cons_self
      · exact within

/-- What operations find of a key, by what it holds. -/
structure Lossless (s : State) (key : String) (contents : Option Item) : Prop where
  value : ∀ v, contents = some (.value v) → (s.cache.get key).result = .ok (some v)
  counter : ∀ n, contents = some (.counter n) → (s.cache.get key).result =
    .ok (s.cache.codec.decode (Utf8.encode (Integer.text n))).toOption
  hash : ∀ fields, contents = some (.hash fields) → (fields.map (·.1)).Nodup ∧
    (∃ entries, (s.cache.fields key).result = .ok entries ∧ entries.Perm fields) ∧
    ∀ f v, (s.cache.fieldGet key f).result = .ok (some v) ↔ (f, v) ∈ fields
  absent : contents = none → s.cache.Lacks key
  /-- A read of the key misses what is not there, a hash, and a number that is no value. -/
  missed : (s.cache.get key).result = .ok none ↔ contents = none ∨
    (∃ fields, contents = some (.hash fields)) ∨ ∃ n, contents = some (.counter n) ∧
      (s.cache.codec.decode (Utf8.encode (Integer.text n))).toOption = none
  empty : (s.cache.fields key).result = .ok [] ↔ contents = none
  /-- Values and numbers are refused where a hash is asked for. -/
  refused : (s.cache.fields key).result = .error (Cache.notHash (s.cache.keys.qualify key)) ↔
    (∃ v, contents = some (.value v)) ∨ ∃ n, contents = some (.counter n)
  accepted : ∀ f v ttl, (s.cache.storeField key f v ttl).result = .ok () ↔
    contents = none ∨ ∃ fields, contents = some (.hash fields)
  /-- An increment answers with the number that it leaves, and fails if it leaves none. -/
  counts : ∀ delta n, (s.cache.increment key delta).result = .ok n ↔
    counted s.cache.codec (s.cache.keys.qualify key) contents delta = some (.counter n)

theorem counts_of_agree {s : State} {key : String} {contents : Option Item}
    (agree : Agree (s.cache.held key) contents) (delta n : Int) :
    (s.cache.increment key delta).result = .ok n ↔
      counted s.cache.codec (s.cache.keys.qualify key) contents delta = some (.counter n) := by
  rw [← agree.counted_eq, Cache.increment_result, counted]
  cases (s.cache.held key).elim (.ok 0) fun item =>
      (Cache.itemInteger s.cache.codec (s.cache.keys.qualify key) item).1 with
  | error f => simp
  | ok m =>
      dsimp only
      split <;> simp

theorem lossless_of_agree {s : State} {key : String} {contents : Option Item}
    (agree : Agree (s.cache.held key) contents)
    (sorted : ∀ fields, s.cache.held key = some (.hash fields) → Sorted fields)
    (filled : ∀ item, s.cache.held key = some item → item.Filled) :
    s.Lossless key contents := by
  have read := s.cache.get_result key
  have readAll := s.cache.fields_result key
  have written := s.cache.storeField_result key
  have readField := s.cache.fieldGet_result key
  have counts := counts_of_agree agree
  cases held : s.cache.held key with
  | none =>
      rw [held] at agree read readAll
      simp only [held] at written
      cases agree
      have lacks := Cache.lacks_of_held_eq_none held
      refine ⟨?_, ?_, ?_, fun _ => lacks, ?_, ?_, ?_, ?_, counts⟩ <;>
        simp [read, readAll, written, Cache.valueOf]
  | some item =>
      rw [held] at agree read readAll
      simp only [held] at written readField
      obtain ⟨other, rfl⟩ : ∃ other, contents = some other := by
        cases agree
        exact ⟨_, rfl⟩
      cases agree with
      | some alike =>
          cases alike with
          | value v | counter n =>
              refine ⟨?_, ?_, ?_, ?_, ?_, ?_, ?_, ?_, counts⟩ <;>
                simp +contextual [read, readAll, written, Cache.valueOf]
          | @hash fields others perm =>
              have sorted := sorted fields held
              have full : fields ≠ [] := filled _ held
              refine ⟨?_, ?_, ?_, ?_, ?_, ?_, ?_, ?_, counts⟩
              · rintro v ⟨⟩
              · rintro n ⟨⟩
              · rintro _ ⟨⟩
                refine ⟨(perm.map _).nodup_iff.mp sorted.nodup, ⟨fields, readAll, perm⟩, ?_⟩
                intro f v
                rw [readField, Except.ok.injEq]
                exact sorted.lookup_eq_some_iff.trans perm.mem_iff
              · rintro ⟨⟩
              · exact iff_of_true read (.inr (.inl ⟨_, rfl⟩))
              · simp [readAll, full]
              · simp [readAll]
              · exact fun f v ttl => iff_of_true (written f v ttl) (.inr ⟨_, rfl⟩)

/-- In a run of a local cache whose store drops nothing by itself, and whose keys, each at its largest,
cost no more than the budget together, what operations find at any point is what the replay of the
run up to there says, and a key holds nothing only if it was never written, removed, emptied or
expired. -/
theorem lossless_after (c : Config) (ops : List Operation) (keeps : ∀ gone, .lose gone ∉ ops)
    (within : c.demand ops ≤ c.budget) (past : List Operation) (earlier : past <:+ ops)
    (key : String) :
    ((opened c).after past).Lossless key (c.contents key past) ∧
      (c.contents key past = none ↔ c.Missing key past) := by
  refine ⟨?_, c.contents_eq_none_iff key past⟩
  have follows : Follows c past := by
    apply follows_after
    · exact fun gone member => keeps gone (earlier.subset member)
    · exact Nat.le_trans (c.demand_le_of_suffix earlier) within
  apply lossless_of_agree (follows.items key)
  · exact fun fields held => sorted_of_held c past held
  · intro item held
    obtain ⟨e, found, rfl⟩ := Option.map_eq_some_iff.mp held
    exact (tidy_after c past).1.filled e (Store.mem_of_live? found).1

end Run

/-- A cache of texts with room for three. -/
def narrow : Config := { Config.ofCodec "c" (.described .plain .text) with maxElements := 3 }

/-- A value is deleted and a hash of two fields takes its place, beside the value of another key. -/
def crowded : List Operation :=
  [.act (.fieldSet "k" "b" (.text "2")), .act (.fieldSet "k" "a" (.text "1")), .act (.delete "k"),
    .act (.set "k" (.text "0")), .act (.set "l" (.text "x"))]

theorem lossless_of_crowded :
    (∀ gone, .lose gone ∉ crowded) ∧ narrow.demand crowded ≤ narrow.budget ∧
      ((opened narrow).after crowded).Lossless "k"
        (some (.hash [("b", .text "2"), ("a", .text "1")])) := by
  have keeps : ∀ gone, .lose gone ∉ crowded := by
    intro gone member
    simp [crowded] at member
  have within : narrow.demand crowded ≤ narrow.budget := by decide +kernel
  exact ⟨keeps, within, (lossless_after narrow crowded keeps within crowded List.suffix_rfl "k").1⟩

/-- A cache of octets, which the numbers beyond 255 are not. -/
def octets : Config := .ofCodec "c" (.described .plain (.int .u8))

/-- Without any loss, the fields of a key that holds a value are not an empty map, and a key that
holds a hash or a wide number is missed. -/
theorem not_read_of_kind :
    (let valued : List Operation := [.act (.set "k" (.text "v"))];
      narrow.demand valued ≤ narrow.budget ∧
        fieldsOf (narrow.contents "k" valued) = [] ∧
        (((opened narrow).after valued).cache.fields "k").result =
          .error (.wrongType "c:k does not hold a hash")) ∧
      (let hashed : List Operation := [.act (.fieldSet "k" "f" (.text "v"))];
        narrow.demand hashed ≤ narrow.budget ∧
          narrow.contents "k" hashed = some (.hash [("f", .text "v")]) ∧
          (((opened narrow).after hashed).cache.get "k").result = .ok none) ∧
      (let counted : List Operation := [.act (.increment "k" 300)];
        octets.demand counted ≤ octets.budget ∧
          octets.contents "k" counted = some (.counter 300) ∧
          (((opened octets).after counted).cache.get "k").result = .ok none) := by
  refine ⟨⟨?_, rfl, rfl⟩, ⟨?_, rfl, rfl⟩, ⟨?_, rfl, rfl⟩⟩
  · decide +kernel
  · decide +kernel
  · decide +kernel

end State
end Local
end CacheFacade
