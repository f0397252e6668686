import CacheFacade.Proofs.Remote.Renewal

/-!
What an owner can rely on in healthy runs, and when. A round is taken as valid if it was shorter
than the validity, but its owner is safe only if it was timely: a slow round, or a validity of few
milliseconds, leaves an owner without replicas before the first renewal, and another client with
the same lock.
-/

namespace CacheFacade
namespace Remote

variable {q : Quorum} {key token : String}

/-- A client has the lock in a healthy run, by a round of this validity and length. -/
structure Guarded (q : Quorum) (key : String) (validity : Span) (elapsed : Nat) (s : Contest)
    (i : Nat) (g : Grant) : Prop where
  reach : Reach q key (Healthy g.lease.token) s
  has : (s.clients i).grant? = some g
  going : g.lease.token ∉ s.signalled
  validity : g.lease.validity = validity
  elapsed : g.elapsed = elapsed

/-- What is promised to the owners of a lock whose rounds have this validity and length. -/
structure LeaseSafe (q : Quorum) (key : String) (validity : Span) (elapsed : Nat) : Prop where
  /-- A majority of the replicas carries the token. -/
  carried : ∀ s i g, Guarded q key validity elapsed s i g →
    q.majority ≤ s.carriers q key g.lease.token
  /-- No other client has the lock, unless the round of that one was too long for what it took. -/
  alone : ∀ s i g, Guarded q key validity elapsed s i g → ∀ j h, (s.clients j).grant? = some h →
    h.lease.token ∉ s.signalled → s.registry.now < h.attempt.expiry → j = i
  /-- No other round takes the lock, unless it was too long for what it took. A round is shorter than
  its validity, so that takes a validity which is not in whole milliseconds. -/
  barred : ∀ s i g, Guarded q key validity elapsed s i g → ∀ j s' h, Turn q key s (.resume j) s' →
    (s.clients j).grant? = none → (s'.clients j).grant? = some h →
    lifetime h.lease.validity ≤ h.elapsed
  /-- Each renewal, and so the first, is due before any replica of the lease runs out. -/
  renewed : ∀ s i g, Guarded q key validity elapsed s i g → ∀ k ∈ g.lease.held,
    ∃ d, s.registry.tenures k = some ⟨g.lease.token, d⟩ ∧ g.due < d

theorem Guarded.resume {validity : Span} {elapsed : Nat} {s s' : Contest} {i j : Nat} {g h : Grant}
    (guarded : Guarded q key validity elapsed s i g) (turn : Turn q key s (.resume j) s')
    (idle : (s.clients j).grant? = none) (has : (s'.clients j).grant? = some h) :
    Guarded q key validity elapsed s' i g ∧ j ≠ i ∧ h.lease.token ∉ s'.signalled ∧
      h.granted = s'.registry.now := by
  have apart : j ≠ i := by
    rintro rfl
    rw [guarded.has] at idle
    cases idle
  have healthy : Healthy g.lease.token s (.resume j) := trivial
  have reach := guarded.reach.step healthy turn
  have orderly : Orderly q key s' := .of_reach reach
  cases turn with
  | @resumeRound _ a x os signals act stand answered run =>
      rw [advance_clients_self] at has
      obtain ⟨rfl, ⟨held, rfl, -⟩ | ⟨y, taken, rfl, -⟩ | ⟨f, rfl⟩⟩ :=
        (stand ▸ (Orderly.of_reach guarded.reach).stage j).resume_round answered run
      · cases has
        have stage := orderly.stage j
        rw [advance_clients_self] at stage
        refine ⟨⟨reach, ?_, guarded.going, guarded.validity, guarded.elapsed⟩, apart, ?_, rfl⟩
        · rw [advance_clients_of_ne _ _ _ apart.symm]
          exact guarded.has
        · cases stage with
          | holding going _ => exact going
      · cases has
      · cases has
  | resumeLease stand _ _ =>
      rw [stand] at idle
      cases idle

theorem LeaseSafe.of_timely {validity : Span} {elapsed : Nat} (positive : 1 ≤ q.majority)
    (timely : Timely validity elapsed) : LeaseSafe q key validity elapsed := by
  have lasts : ∀ s i g, Guarded q key validity elapsed s i g → s.registry.now ≤ g.due ∧
      ∀ k ∈ g.lease.held, s.registry.Lasts k g.lease.token (g.due + 1) := by
    intro s i g guarded
    have short : Timely g.lease.validity g.elapsed := by
      rw [guarded.validity, guarded.elapsed]
      exact timely
    have watched := Contest.Watched.of_reach guarded.reach
    exact (watched i g guarded.has rfl guarded.going short).lasts guarded.has
  have carried : ∀ s i g, Guarded q key validity elapsed s i g →
      q.majority ≤ s.carriers q key g.lease.token := by
    intro s i g guarded
    obtain ⟨soon, held⟩ := lasts s i g guarded
    apply (((Orderly.of_reach guarded.reach).stage i).sound guarded.has).majority_le
    intro k hk
    exact (held k hk).carries (Nat.lt_succ_of_le soon)
  have alone : ∀ s i g, Guarded q key validity elapsed s i g → ∀ j h,
      (s.clients j).grant? = some h → h.lease.token ∉ s.signalled →
      s.registry.now < h.attempt.expiry → j = i := by
    intro s i g guarded j h has going soon
    have orderly : Orderly q key s := .of_reach guarded.reach
    have other := (Contest.Durable.of_reach guarded.reach).majority_le orderly has going soon
    have same := carriers_unique s positive other (carried s i g guarded)
    have own := Client.token?_of_attempt? (Client.attempt?_of_grant? guarded.has)
    have its := Client.token?_of_attempt? (Client.attempt?_of_grant? has)
    exact orderly.apart j i g.lease.token (same ▸ its) own
  refine ⟨carried, alone, ?_, ?_⟩
  · intro s i g guarded j s' h turn idle has
    obtain ⟨guarded', apart, going, now⟩ := guarded.resume turn idle has
    by_contra short
    apply apart
    apply alone s' i g guarded' j h has going
    simp only [Grant.elapsed, now] at short
    simp only [Attempt.expiry, Grant.attempt]
    omega
  · intro s i g guarded k hk
    obtain ⟨d, held, later⟩ := (lasts s i g guarded).2 k hk
    exact ⟨d, held, later⟩

/-- The moves of a round are healthy for the token of another client that has time until its next
renewal. -/
theorem permits_healthy {s : Contest} {i : Nat} {validity : Span} {t : String} {delay : Nat}
    (calm : ∀ j g, j ≠ i → (s.clients j).grant? = some g → g.lease.token = token →
      s.clients j = .holding g ∧ s.registry.now + delay ≤ g.due) :
    Permits (Healthy token) s i validity t delay := by
  have patient : ∀ u, Undisturbed s i u → ∀ j g, (u.clients j).grant? = some g →
      g.lease.token = token → u.clients j = .holding g ∧ s.registry.now + delay ≤ g.due := by
    intro u h j g has own
    by_cases hj : j = i
    · rw [hj, h.own] at has
      cases has
    · rw [h.others j hj] at has ⊢
      exact calm j g hj has own
  refine ⟨fun _ _ => trivial, ?_, ?_, fun _ _ => trivial⟩
  · intro u h n g x stand
    have own := h.own
    rw [stand] at own
    cases own
  · intro u h now
    constructor
    · intro j g stand own
      rw [now]
      exact (patient u h j g (by rw [stand]; rfl) own).2
    · intro j g x stand own
      have other := (patient u h j g (by rw [stand]; rfl) own).1
      rw [stand] at other
      cases other

theorem exists_first_owner (q : Quorum) (key token : String) (positive : 1 ≤ q.majority)
    {validity : Span} {elapsed : Nat} (accepted : elapsed < validity.nanos) :
    ∃ s, Reach q key (Healthy token) s ∧ s.signalled = [] ∧ s.drawn = [token] ∧
      s.registry.now = elapsed ∧
      s.clients 0 = .holding (.whole q key token validity 0 elapsed) ∧
      (∀ j, j ≠ 0 → s.clients j = .idle) ∧
      ∀ r ∈ q.replicas key, s.registry.tenures r = some ⟨token, lifetime validity⟩ := by
  have may : Permits (Healthy token) .start 0 validity token elapsed := by
    apply permits_healthy
    intro j g _ has
    cases has
  obtain ⟨s, reach, others, signalled, drawn, now, holds, tenures⟩ :=
    Reach.undisturbed .start positive rfl List.not_mem_nil accepted (fun _ _ => rfl) may
  simp only [Contest.start, Registry.vacant, Registry.grant, Nat.zero_add] at now holds tenures
  exact ⟨s, reach, signalled, drawn, now, holds, others, tenures⟩

/-- After a round that was not timely, all that it took can run out before the first renewal. -/
theorem exists_bare_owner (q : Quorum) (key token : String) (positive : 1 ≤ q.majority)
    {validity : Span} {elapsed : Nat} (accepted : elapsed < validity.nanos)
    (late : ¬ Timely validity elapsed) :
    ∃ s, Reach q key (Healthy token) s ∧ s.signalled = [] ∧ s.drawn = [token] ∧
      s.clients 0 = .holding (.whole q key token validity 0 elapsed) ∧
      s.registry.now ≤ elapsed + renewal validity ∧ (∀ j, j ≠ 0 → s.clients j = .idle) ∧
      ∀ r ∈ q.replicas key, s.registry.tenure? r = none := by
  obtain ⟨s, reach, signalled, drawn, now, holds, others, tenures⟩ :=
    exists_first_owner q key token positive accepted
  simp only [Timely, Nat.not_lt] at late
  have healthy : Healthy token s (.pass (lifetime validity - elapsed)) := by
    constructor
    · intro i g stand _
      by_cases hi : i = 0
      · rw [hi, holds] at stand
        cases stand
        change _ ≤ elapsed + renewal validity
        omega
      · rw [others i hi] at stand
        cases stand
    · intro i g x stand
      by_cases hi : i = 0
      · rw [hi, holds] at stand
        cases stand
      · rw [others i hi] at stand
        cases stand
  -- The renewal is not due before the replicas run out, so a healthy clock may go that far.
  refine ⟨_, reach.step healthy (.pass _), signalled, drawn, holds, ?_, others, ?_⟩
  · change s.registry.now + (lifetime validity - elapsed) ≤ _
    omega
  · intro r hr
    simp only [Registry.tenure?, Registry.pass, tenures r hr, Option.filter_eq_none_iff]
    intro t ht
    cases ht
    have past : ¬ s.registry.now + (lifetime validity - elapsed) < lifetime validity := by omega
    exact fun live => past (of_decide_eq_true live)

/-- The promises to the owners of a lock are kept just when their rounds are timely. -/
theorem leaseSafe_iff_timely {validity : Span} {elapsed : Nat} (positive : 1 ≤ q.majority)
    (accepted : elapsed < validity.nanos) :
    LeaseSafe q key validity elapsed ↔ Timely validity elapsed := by
  constructor
  · intro safe
    by_contra late
    obtain ⟨s, reach, signalled, -, holds, -, -, vacant⟩ :=
      exists_bare_owner q key "token" positive accepted late
    have guarded : Guarded q key validity elapsed s 0
        (.whole q key "token" validity 0 elapsed) := by
      refine ⟨reach, by rw [holds]; rfl, ?_, rfl, Nat.sub_zero elapsed⟩
      rw [signalled]
      exact List.not_mem_nil
    have none : s.carriers q key "token" = 0 := by
      apply List.countP_eq_zero.mpr
      intro r hr
      simp [Registry.carries, vacant r hr]
    have carried : q.majority ≤ s.carriers q key "token" := safe.carried s 0 _ guarded
    omega
  · exact LeaseSafe.of_timely positive

theorem leaseSafe_of_short_round :
    1 ≤ (⟨⟨"app"⟩, 2, .ofSeconds 1⟩ : Quorum).majority ∧
      100000000 < (Span.ofSeconds 1).nanos ∧
      LeaseSafe ⟨⟨"app"⟩, 2, .ofSeconds 1⟩ "job" (.ofSeconds 1) 100000000 :=
  ⟨by decide, by decide, (leaseSafe_iff_timely (by decide) (by decide)).mpr (by decide)⟩

/-- A round of 800 ms takes a lock for a second, and is first renewed after 500 ms more. Another
client takes the lock meanwhile, and the first one is not told. -/
theorem two_owners_of_slow_round :
    ∃ s g h, Guarded ⟨⟨"app"⟩, 2, .ofSeconds 1⟩ "job" (.ofSeconds 1) 800000000 s 0 g ∧
      s.carriers ⟨⟨"app"⟩, 2, .ofSeconds 1⟩ "job" g.lease.token < 2 ∧
      (s.clients 1).grant? = some h ∧ h.lease.token ∉ s.signalled ∧ h.elapsed = 0 := by
  have positive : 1 ≤ (⟨⟨"app"⟩, 2, .ofSeconds 1⟩ : Quorum).majority := by decide
  have accepted : 800000000 < (Span.ofSeconds 1).nanos := by decide
  obtain ⟨s, reach, signalled, drawn, holds, soon, others, vacant⟩ :=
    exists_bare_owner ⟨⟨"app"⟩, 2, .ofSeconds 1⟩ "job" "first" positive accepted (by decide)
  have may : Permits (Healthy "first") s 1 (.ofSeconds 1) "second" 0 := by
    apply permits_healthy
    intro j g _ has _
    by_cases hj : j = 0
    · subst hj
      rw [holds] at has ⊢
      cases has
      exact ⟨rfl, soon⟩
    · rw [others j hj] at has
      cases has
  have fresh : "second" ∉ s.drawn := by
    rw [drawn]
    decide
  obtain ⟨s', reach', others', signalled', -, now', holds', tenures'⟩ :=
    reach.undisturbed positive (others 1 (by decide)) fresh (by decide) vacant may
  have stand : s'.clients 0 =
      .holding (.whole ⟨⟨"app"⟩, 2, .ofSeconds 1⟩ "job" "first" (.ofSeconds 1) 0 800000000) := by
    rw [others' 0 (by decide), holds]
  refine ⟨s', _, _, ⟨reach', by rw [stand]; rfl, ?_, rfl, rfl⟩, ?_, by rw [holds']; rfl, ?_, ?_⟩
  · rw [signalled', signalled]
    exact List.not_mem_nil
  · have none : s'.carriers ⟨⟨"app"⟩, 2, .ofSeconds 1⟩ "job" "first" = 0 := by
      apply List.countP_eq_zero.mpr
      intro r hr carried
      obtain ⟨d, held, -⟩ := (Registry.carries_iff _ _ _).mp carried
      rw [tenures' r hr] at held
      have tokens := congrArg (Option.map Tenure.token) held
      simp [Registry.grant] at tokens
    change s'.carriers ⟨⟨"app"⟩, 2, .ofSeconds 1⟩ "job" "first" < 2
    omega
  · rw [signalled', signalled]
    exact List.not_mem_nil
  · exact Nat.sub_self _

end Remote
end CacheFacade
