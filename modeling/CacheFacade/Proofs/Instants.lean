import CacheFacade.Environment
import CacheFacade.Proofs.Local.Standing
import CacheFacade.Proofs.Remote.Candor
import CacheFacade.Proofs.Remote.Renewal
import CacheFacade.Proofs.Remote.Requests
import CacheFacade.Remote.Session

/-!
Locks on a clock that has a last instant. Two instants are reckoned when a lock is taken: the deadline
of a local one, a lease from now, and the first renewal of a remote one, a period from now. No
configuration is refused for its lease, so either of them can lie beyond the last instant, and whoever
reckons it then comes to an end: the caller of the local engine, or the task that looks after the
lease. The lifetimes that are sent to a server are fitted to what it takes, whatever the lease is.
-/

namespace CacheFacade

theorem Span.nanos_pos {d : Span} (given : ¬ d.isZero = true) : 0 < d.nanos := by
  simpa [isZero, Nat.pos_iff_ne_zero] using given

theorem Config.leaseOf_pos (c : Config) : 0 < c.leaseOf.nanos := by
  have lasting : 0 < (c.ttl.getD defaultLease).nanos := by
    rw [ttl]
    split
    next => decide
    next given => exact Span.nanos_pos given
  rw [leaseOf]
  split
  next v _ =>
      split
      next => exact lasting
      next given => exact Span.nanos_pos given
  next => exact lasting

namespace Local

/-- Up to an instant, every try in every run of a cache comes to a guard or is told that the lock is
held. The holder of the guard has a deadline that the clock comes to. -/
def TriesEnd (c : Config) (horizon : Nat) : Prop :=
  ∀ ops key,
    let cache := ((State.opened c).after ops).cache
    cache.now ≤ horizon →
      (∃ g deadline, (cache.tryLock key).result = .ok g ∧
        ⟨g.key, g.token, deadline⟩ ∈ (cache.tryLock key).state.locks.holders ∧
          deadline ≤ Clock.last) ∨
        (cache.tryLock key).result = .error .notLocked

/-- The lease of a cache stays what its configuration says, so the deadlines are told by that. -/
theorem triesEnd_iff (c : Config) (horizon : Nat) :
    TriesEnd c horizon ↔ horizon + c.leaseOf.nanos ≤ Clock.last := by
  constructor
  -- Whoever sleeps to the horizon after the start has a try there.
  · intro ends
    let s := (State.opened c).after [.sleep ⟨horizon⟩]
    have slept : s.cache.now = horizon := Nat.zero_add _
    obtain ⟨-, -, early⟩ | ⟨-, ⟨-, early⟩ | ⟨result, -⟩⟩ :=
      s.locks.take_cases (s.cache.keys.qualify "") s.cache.now s.cache.lease
    · rwa [slept] at early
    · rwa [slept] at early
    · have told : (s.cache.tryLock "").result = .error (.panicked Clock.overflow) :=
        (s.result_tryLock "").trans result
      obtain ⟨g, deadline, taken, -⟩ | busy := ends [.sleep ⟨horizon⟩] "" (Nat.le_of_eq slept)
      · cases told.symm.trans taken
      · cases told.symm.trans busy
  · intro early ops key cache soon
    have lease : cache.lease = c.leaseOf := (State.settings_after (State.opened c) ops).2
    have reached : cache.now + cache.lease.nanos ≤ Clock.last := by
      rw [lease]
      omega
    obtain ⟨result, state, -⟩ | ⟨-, ⟨result, -⟩ | ⟨-, late⟩⟩ :=
      cache.locks.take_cases (cache.keys.qualify key) cache.now cache.lease
    · refine .inl ⟨_, _, congrArg (Except.map id) result, ?_, reached⟩
      change _ ∈ (cache.locks.take (cache.keys.qualify key) cache.now cache.lease).state.holders
      rw [state, Lock.Table.mem_install]
      exact .inl rfl
    · exact .inr (congrArg (Except.map id) result)
    · exact absurd reached (Nat.not_le.mpr late)

end Local

namespace Remote

variable {σ : Type} {link : Link σ} {q : Quorum} {key : String} {p : Plan (Except Fault Lease)}

/-- The plans by which a lock is taken: one try, or so many at most. -/
inductive Quorum.LockPlan (q : Quorum) (key : String) : Plan (Except Fault Lease) → Prop
  | tryLock : LockPlan q key (q.tryLock key)
  | lock (rounds : Nat) : LockPlan q key (q.lock key rounds)

/-- What becomes of a lock that a session takes: its lease is looked after from the first renewal on,
if the clock comes to that. -/
theorem Session.takeLock_cases (link : Link σ) (p : Plan (Except Fault Lease)) (s : Session σ) :
    (s.takeLock link p).value = (p.run link s.world).value ∧
      (s.takeLock link p).state.world = (p.run link s.world).state ∧
      ∀ l, (p.run link s.world).value = .ok l → (s.takeLock link p).state.tended =
        s.tended ++ ((Clock.after? (link.now (p.run link s.world).state) l.period).map fun due =>
          ⟨l, due⟩).toList := by
  have value : (s.perform link p).value = (p.run link s.world).value := rfl
  rw [takeLock]
  cases told : (s.perform link p).value with
  | ok l =>
      have same : ∀ s' : Session σ, (s'.tend link l).world = s'.world ∧ (s'.tend link l).tended =
          s'.tended ++ ((Clock.after? (link.now s'.world) l.period).map fun due =>
            ⟨l, due⟩).toList := by
        intro s'
        rw [tend]
        cases Clock.after? (link.now s'.world) l.period with
        | none => exact ⟨rfl, (List.append_nil _).symm⟩
        | some due => exact ⟨rfl, rfl⟩
      refine ⟨value, (same _).1, ?_⟩
      intro l' taken
      cases told.symm.trans (value.trans taken)
      exact (same _).2
  | error f =>
      refine ⟨value, rfl, ?_⟩
      intro l taken
      cases told.symm.trans (value.trans taken)

/-- Over every link, whoever takes a lock up to an instant comes to a lease or an error, and so does
the task that looks after the lease: it has an instant for the first renewal. -/
def TriesEnd (c : Config) (horizon : Nat) : Prop :=
  ∀ (σ : Type) (link : Link σ) (s : Session σ) key p, (Quorum.ofConfig c).LockPlan key p →
    link.now (s.takeLock link p).state.world ≤ horizon →
      (∃ l due, (s.takeLock link p).value = .ok l ∧
        (s.takeLock link p).state.tended = s.tended ++ [⟨l, due⟩] ∧ due ≤ Clock.last) ∨
        ∃ f, (s.takeLock link p).value = .error f ∧ ∀ text, f ≠ .panicked text

/-- What a plan that takes a lock ends in: a lease with the validity of the lock, or a fault that is
no panic. -/
structure Quorum.Grants (q : Quorum) (r : Except Fault Lease) : Prop where
  validity : ∀ l, r = .ok l → l.validity = q.validity
  returns : ∀ text, r ≠ .error (.panicked text)

namespace Quorum

theorem mem_faults_of_verdict {r : Round} {majority elapsed : Nat} {validity : Span} {f : Fault}
    (failed : r.verdict majority validity elapsed = .failed f) : f ∈ r.faults := by
  rw [Round.verdict] at failed
  split at failed
  · cases failed
  · split at failed
    next last =>
        split at failed
        · cases failed
          exact List.mem_of_getLast? last
        · cases failed
    next => cases failed

theorem yields_grants_tryLock (q : Quorum) (key : String) : (q.tryLock key).Yields q.Grants := by
  intro token
  apply (Plan.yields_any (pure token)).bind
  intro token _
  apply (q.yields_round key token).bind
  rintro v ⟨os, elapsed, told⟩
  cases v with
  | acquired held =>
      refine ⟨?_, nofun⟩
      rintro l ⟨rfl⟩
      rfl
  | busy => exact ⟨nofun, nofun⟩
  | failed f =>
      refine ⟨nofun, ?_⟩
      rintro text ⟨rfl⟩
      obtain ⟨⟨r, m⟩, paired, shown⟩ := List.mem_filterMap.mp (mem_faults_of_verdict told.symm)
      obtain ⟨o, -, rfl⟩ := List.mem_map.mp (List.of_mem_zip paired).2
      have failed : Mark.ofOutcome o = .failed (.panicked text) := by
        cases mark : Mark.ofOutcome o with
        | failed f =>
            rw [mark] at shown
            rw [Option.some.inj shown]
        | taken | contended =>
            rw [mark] at shown
            cases shown
      cases Mark.faults failed

theorem LockPlan.yields (taking : q.LockPlan key p) : p.Yields q.Grants := by
  cases taking with
  | tryLock => exact q.yields_grants_tryLock key
  | lock rounds => exact yields_lock_of (q.yields_grants_tryLock key) ⟨nofun, nofun⟩ rounds

theorem LockPlan.asks {P : Command → Prop} (taking : q.LockPlan key p)
    (writes : ∀ r token, P (.acquire r token (milliseconds q.validity)))
    (releases : ∀ r token, P (.release r token)) : p.Asks P := by
  have tries : (q.tryLock key).Asks P :=
    asks_tryLock_of (fun r _ token => writes r token) fun r _ token => releases r token
  cases taking with
  | tryLock => exact tries
  | lock rounds => exact asks_lock_of tries rounds

end Quorum

/-- A lifetime that a server takes: a positive word of 64 bits. -/
def Command.Fitted (command : Command) : Prop := ∀ t, command.ttl? = some t → 1 ≤ t ∧ t < 2 ^ 64

theorem milliseconds_lt (d : Span) : milliseconds d < 2 ^ 64 :=
  Nat.max_lt.mpr ⟨by decide, Nat.lt_of_le_of_lt (Nat.min_le_right ..) (by decide)⟩

theorem Command.fitted_of_milliseconds {command : Command} {d : Span}
    (given : command.ttl? = some (milliseconds d)) : command.Fitted := by
  intro t same
  cases given.symm.trans same
  exact ⟨milliseconds_pos d, milliseconds_lt d⟩

theorem Lease.fitted_react (l : Lease) (prompt : Prompt) :
    (l.react prompt).Asks Command.Fitted :=
  asks_react (fun _ _ => Command.fitted_of_milliseconds rfl) (fun _ _ => nofun) prompt

/-- Servers that confirm everything, at an instant at which time stands still. -/
def Link.still (now : Nat) : Link Unit where
  exchange commands s := (commands.map fun _ => .ok .okay, s)
  now _ := now
  pass _ s := s
  draw s := ("token", s)
  length_exchange _ _ := List.length_map _

theorem Quorum.value_tryLock_still (q : Quorum) (positive : 1 ≤ q.majority)
    (lasting : 0 < q.validity.nanos) (key : String) (now : Nat) :
    ((q.tryLock key).run (.still now) ()).value =
      .ok ⟨q.keys.qualify key, "token", q.replicas key, q.majority, q.validity⟩ := by
  have held : (q.concluded key ((q.acquires key "token").map fun _ => .ok .okay)).held =
      q.replicas key := by
    have each : (q.acquires key "token").map (fun _ => (.ok .okay : Outcome)) =
        (q.replicas key).map fun _ => .ok .okay := List.map_map
    rw [concluded, each]
    exact held_of_okay (q.replicas key)
  have enough : q.majority ≤ (q.replicas key).length := by
    rw [length_replicas, size]
    omega
  have asked : (Link.still now).exchange (q.acquires key "token") () =
      ((q.acquires key "token").map fun _ => .ok .okay, ()) := rfl
  have drawn : (Link.still now).draw () = ("token", ()) := rfl
  have verdict : ((q.round key "token").run (.still now) ()).value =
      .acquired (q.replicas key) := by
    rw [value_round asked, verdict_acquired_iff, held]
    exact ⟨⟨enough, by rwa [Nat.sub_self]⟩, rfl⟩
  rw [(tryLock_eq_round drawn).1, verdict]
  rfl

/-- A lock can be granted at every instant, and its period is told by the validity. -/
theorem triesEnd_iff (c : Config) (horizon : Nat) :
    TriesEnd c horizon ↔ horizon + renewal c.leaseOf ≤ Clock.last := by
  constructor
  -- Where time stands still at the horizon, a lock is granted there.
  · intro ends
    let q := Quorum.ofConfig c
    let s : Session Unit := .start ()
    have granted := q.value_tryLock_still (Nat.le_max_left ..) c.leaseOf_pos "" horizon
    obtain ⟨value, -, tended⟩ := s.takeLock_cases (.still horizon) (q.tryLock "")
    by_contra late
    obtain ⟨l, due, -, kept, -⟩ | ⟨f, failed, -⟩ :=
      ends Unit (.still horizon) s "" _ .tryLock (Nat.le_refl _)
    · have beyond : Clock.after? horizon (Lease.period
          ⟨q.keys.qualify "", "token", q.replicas "", q.majority, q.validity⟩) = none :=
        Clock.after?_eq_none_iff.mpr (Nat.not_le.mp late)
      have nobody := tended _ granted
      rw [show (Link.still horizon).now _ = horizon from rfl, beyond] at nobody
      cases nobody.symm.trans kept
    · cases failed.symm.trans (value.trans granted)
  · intro early σ link s key p taking soon
    obtain ⟨value, world, tended⟩ := s.takeLock_cases link p
    have granted := taking.yields.value link s.world
    rw [value]
    cases told : (p.run link s.world).value with
    | ok l =>
        have reached : link.now (p.run link s.world).state + l.period.nanos ≤ Clock.last := by
          rw [l.period_nanos, granted.validity l told, ← world]
          exact Nat.le_trans (Nat.add_le_add_right soon _) early
        refine .inl ⟨l, _, rfl, ?_, reached⟩
        rw [tended l told, Clock.after?_eq_some_iff.mpr ⟨reached, rfl⟩]
        rfl
    | error f =>
        refine .inr ⟨f, rfl, ?_⟩
        rintro text rfl
        exact granted.returns text told

end Remote

/-- Up to an instant, every local try ends exactly if the clock comes to a lease after that instant,
and every remote one, with its renewals, exactly if it comes to a period after it. The lifetimes that
are sent to take a lock and to keep it fit a server, and the period is never zero. -/
theorem triesEnd_iff_reached (c : Config) (horizon : Nat) :
    (Local.TriesEnd c horizon ↔ horizon + c.leaseOf.nanos ≤ Clock.last) ∧
    (Remote.TriesEnd c horizon ↔ horizon + Remote.renewal c.leaseOf ≤ Clock.last) ∧
    ∀ key p, (Remote.Quorum.ofConfig c).LockPlan key p →
      p.Asks Remote.Command.Fitted ∧
      p.Yields fun r => ∀ l, r = .ok l →
        l.period.nanos = Remote.renewal c.leaseOf ∧ 0 < l.period.nanos ∧
          ∀ prompt, (l.react prompt).Asks Remote.Command.Fitted := by
  refine ⟨Local.triesEnd_iff c horizon, Remote.triesEnd_iff c horizon, fun key p taking => ?_⟩
  refine ⟨taking.asks (fun _ _ => Remote.Command.fitted_of_milliseconds rfl) fun _ _ => nofun, ?_⟩
  refine taking.yields.mono fun r grants l told => ?_
  rw [l.period_nanos, grants.validity l told]
  exact ⟨rfl, Remote.renewal_pos c.leaseOf, l.fitted_react⟩

/-- With the usual lease of five seconds, every try ends for the first thirty years of a clock. -/
theorem triesEnd_for_years :
    let c := Config.ofCodec "app" (.described .plain .text)
    Local.TriesEnd c 1000000000000000000 ∧ Remote.TriesEnd c 1000000000000000000 ∧
      ((Remote.Quorum.ofConfig c).lock "l" 9).Asks Remote.Command.Fitted := by
  intro c
  obtain ⟨tries, tasks, plans⟩ := triesEnd_iff_reached c 1000000000000000000
  exact ⟨tries.mpr (by decide), tasks.mpr (by decide), (plans "l" _ (.lock 9)).1⟩

/-- The variables of a cache whose entries live as long as a number of seconds can tell. -/
def lengthyVariables (name : String) : Option String :=
  if name = "CACHE_DEFAULT_TTL_SECS" then some "18446744073709551615" else none

/-- The longest lease is accepted in every mode. Locally no try ends, be it at the very first instant;
remotely the lock is granted, and nobody looks after its lease: the signal is given from the next
instant on, though the replica keeps the token. The lifetime that variables can give to entries, and
so to locks, is too long for local tries as well. -/
theorem not_triesEnd_of_longest :
    ((lengthy .inProcess "").validate = .ok () ∧
      ((Local.Cache.ofConfig (lengthy .inProcess "")).tryLock "l").result =
        .error (.panicked Clock.overflow) ∧
      ¬ Local.TriesEnd (lengthy .inProcess "") 0) ∧
    ((lengthy .remote "localhost:6379").validate = .ok () ∧
      (let r := Remote.Session.takeLock (.still 1)
        ((Remote.Quorum.ofConfig (lengthy .remote "localhost:6379")).tryLock "l") (.start ())
      r.value = .ok ⟨"app:l", "token", ["app:lock:0:l"], 1, .greatest⟩ ∧ r.state.tended = [] ∧
        r.state.isCancelled "token" = true) ∧
      ¬ Remote.TriesEnd (lengthy .remote "localhost:6379") 1) ∧
    ∃ c, Environment.config .text lengthyVariables = .ok c ∧ c.validate = .ok () ∧
      ¬ Local.TriesEnd c 0 := by
  refine ⟨⟨rfl, by decide, ?_⟩, ⟨rfl, ⟨rfl, by decide, by decide⟩, ?_⟩, _, rfl, rfl, ?_⟩
  · rw [Local.triesEnd_iff]
    decide
  · rw [Remote.triesEnd_iff]
    decide
  · rw [Local.triesEnd_iff]
    decide

end CacheFacade
