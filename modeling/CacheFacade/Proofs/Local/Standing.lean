import CacheFacade.Proofs.Local.Guards
import CacheFacade.Proofs.Lock.Holders

/-!
The locks of a local cache, told by what happened to them. A guard stands from its acquisition until
it is given back, its key is acquired anew, or all locks are cleared. In every run the holders in the
table are the guards that stand, each with the deadline of its acquisition, so a lock can be taken
just when no guard of its key stands before its deadline; a try comes to no answer when the clock does
not come to the deadline of a lock that is taken then.
-/

namespace CacheFacade

/-- A cache whose locks have the longest lease. -/
def lengthy (mode : Mode) (address : String) : Config :=
  { Config.ofCodec "app" (.described .plain .text) with
    mode := mode
    address := address
    lockValidity := some .greatest }

namespace Local

/-- The clock comes to the deadline of a lock that is taken now. -/
def Cache.Reckons (c : Cache) : Prop := c.now + c.lease.nanos ≤ Clock.last

instance (c : Cache) : Decidable c.Reckons := inferInstanceAs (Decidable (_ ≤ _))

/-- What happens to the locks of a cache. -/
inductive LockEvent where
  | acquired (g : Lock.Guard) (time : Nat)
  /-- A guard is released or dropped. -/
  | returned (g : Lock.Guard)
  | cleared

/-- The guard no longer stands: it is given back, superseded or cleared. -/
def LockEvent.Ends (g : Lock.Guard) : LockEvent → Prop
  | .acquired other _ => other.key = g.key
  | .returned other => other = g
  | .cleared => True

/-- A guard was acquired at an instant, and nothing that happened since ended it. The last event of
a log is listed first. -/
def Stands (log : List LockEvent) (g : Lock.Guard) (time : Nat) : Prop :=
  ∃ later earlier, log = later ++ .acquired g time :: earlier ∧ ∀ e ∈ later, ¬ e.Ends g

theorem not_stands_nil (g : Lock.Guard) (time : Nat) : ¬ Stands [] g time := by
  rintro ⟨later, earlier, eq, -⟩
  simp at eq

theorem stands_cons {e : LockEvent} {log : List LockEvent} {g : Lock.Guard} {time : Nat} :
    Stands (e :: log) g time ↔ e = .acquired g time ∨ ¬ e.Ends g ∧ Stands log g time := by
  constructor
  · rintro ⟨later, earlier, eq, lasting⟩
    cases later with
    | nil => exact .inl (List.cons.inj eq).1
    | cons e' later =>
        obtain ⟨rfl, rest⟩ := List.cons.inj eq
        exact .inr ⟨lasting e List.mem_cons_self,
          later, earlier, rest, fun e' member => lasting e' (List.mem_cons_of_mem _ member)⟩
  · rintro (rfl | ⟨lasting, later, earlier, rfl, others⟩)
    · exact ⟨[], log, rfl, nofun⟩
    · exact ⟨e :: later, earlier, rfl, List.forall_mem_cons.mpr ⟨lasting, others⟩⟩

/-- A guard was acquired, and then given back, superseded or cleared. -/
def Ended (log : List LockEvent) (g : Lock.Guard) : Prop :=
  ∃ later e earlier time, log = later ++ e :: earlier ∧ .acquired g time ∈ earlier ∧ e.Ends g

theorem ended_cons {e : LockEvent} {log : List LockEvent} {g : Lock.Guard}
    (ended : Ended (e :: log) g) : (∃ time, .acquired g time ∈ log) ∧ e.Ends g ∨ Ended log g := by
  obtain ⟨later, e', earlier, time, eq, acquired, ends⟩ := ended
  cases later with
  | nil =>
      obtain ⟨rfl, rfl⟩ := List.cons.inj eq
      exact .inl ⟨⟨time, acquired⟩, ends⟩
  | cons _ later =>
      obtain ⟨-, rest⟩ := List.cons.inj eq
      exact .inr ⟨later, e', earlier, time, rest, acquired, ends⟩

namespace State

/-- What an operation does to the locks of a state. -/
def lockEvents (s : State) : Operation → List LockEvent
  | .tryLock key =>
    match (s.cache.tryLock key).result with
    | .ok g => [.acquired g s.cache.now]
    | .error _ => []
  | .giveBack g => if s.Keeps g then [.returned g] else []
  | .close => [.cleared]
  | .release => if s.service.released then [] else [.cleared]
  | .act _ | .sleep _ | .lose _ => []

/-- What happened to the locks of a state in a run. -/
def lockLog (s : State) : List Operation → List LockEvent
  | [] => []
  | d :: past => (s.after past).lockEvents d ++ s.lockLog past

/-- What an operation comes to for the locks. -/
inductive LockTurn (s : State) : Operation → List LockEvent → List Lock.Holder → Prop
  | idle {d : Operation} : LockTurn s d [] s.locks.holders
  | taken (key : String) : LockTurn s (.tryLock key)
      [.acquired ⟨s.cache.keys.qualify key, s.locks.nextToken⟩ s.cache.now]
      (s.locks.install ⟨s.cache.keys.qualify key, s.locks.nextToken,
        s.cache.now + s.cache.lease.nanos⟩).holders
  | given {g : Lock.Guard} (keeps : s.Keeps g) :
      LockTurn s (.giveBack g) [.returned g] (s.locks.release g).state.holders
  | cleared {d : Operation} : LockTurn s d [.cleared] []

theorem result_tryLock (s : State) (key : String) :
    (s.cache.tryLock key).result =
      (s.locks.take (s.cache.keys.qualify key) s.cache.now s.cache.lease).result := by
  change Except.map id (s.locks.take _ _ _).result = _
  cases (s.locks.take _ _ _).result <;> rfl

theorem locks_tryLock (s : State) (key : String) :
    (s.step (.tryLock key)).locks =
      (s.locks.take (s.cache.keys.qualify key) s.cache.now s.cache.lease).state := by
  simp only [step]
  split <;> rfl

theorem lockTurn (s : State) (d : Operation) :
    LockTurn s d (s.lockEvents d) (s.step d).locks.holders := by
  cases d with
  | act a =>
      have same : (s.step (.act a)).locks = s.locks := by
        change (s.cache.run a).state.locks = s.cache.locks
        rw [s.cache.alike_run a]
      rw [same]
      exact .idle
  | sleep d => exact .idle
  | lose gone => exact .idle
  | tryLock key =>
      rw [locks_tryLock, lockEvents, result_tryLock]
      obtain ⟨result, state, -⟩ | ⟨state, ⟨result, -⟩ | ⟨result, -⟩⟩ :=
        s.locks.take_cases (s.cache.keys.qualify key) s.cache.now s.cache.lease
      · rw [result, state]
        exact .taken key
      · rw [result, state]
        exact .idle
      · rw [result, state]
        exact .idle
  | giveBack g =>
      simp only [lockEvents, step]
      split
      case isTrue keeps => exact .given keeps
      case isFalse => exact .idle
  | close => exact .cleared
  | release =>
      simp only [lockEvents, step, Service.release]
      split
      · exact .idle
      · exact .cleared

theorem LockTurn.events {s : State} {d : Operation} {events : List LockEvent}
    {holders : List Lock.Holder} (turn : s.LockTurn d events holders) :
    events = [] ∨ ∃ e, events = [e] := by
  cases turn with
  | idle => exact .inl rfl
  | taken | given | cleared => exact .inr ⟨_, rfl⟩

theorem LockTurn.origin {s : State} (settled : s.Settled) {d : Operation} {events : List LockEvent}
    {holders : List Lock.Holder} (turn : s.LockTurn d events holders) {h : Lock.Holder}
    (member : h ∈ holders) :
    h ∈ s.locks.holders ∨ ∃ key, d = .tryLock key ∧ h = ⟨s.cache.keys.qualify key,
      s.locks.nextToken, s.cache.now + s.cache.lease.nanos⟩ := by
  cases turn with
  | idle => exact .inl member
  | taken key =>
      obtain rfl | ⟨old, -⟩ := Lock.Table.mem_install.mp member
      · exact .inr ⟨key, rfl, rfl⟩
      · exact .inl old
  | given keeps => exact .inl ((Lock.Table.mem_release settled.table _ h).mp member).1
  | cleared => cases member

/-- What ends a guard that was issued before takes its key from it. -/
theorem LockTurn.not_seats {s : State} (settled : s.Settled) {d : Operation} {e : LockEvent}
    {holders : List Lock.Holder} (turn : s.LockTurn d [e] holders) {g : Lock.Guard}
    (known : g ∈ s.issued) (ends : e.Ends g) : ∀ h ∈ holders, h.guard ≠ g := by
  intro h member
  cases turn with
  | taken key =>
      obtain rfl | ⟨-, other⟩ := Lock.Table.mem_install.mp member
      · rintro rfl
        exact Nat.lt_irrefl _ (settled.table.fresh _ known)
      · rintro rfl
        exact other ends.symm
  | given keeps =>
      obtain rfl : _ = g := ends
      exact ((Lock.Table.mem_release settled.table _ h).mp member).2
  | cleared => cases member

theorem issued_of_lockEvents {s : State} {d : Operation} {g : Lock.Guard} {time : Nat}
    (acquired : .acquired g time ∈ s.lockEvents d) : g ∈ (s.step d).issued := by
  cases d with
  | act | sleep | lose => cases acquired
  | close => simp [lockEvents] at acquired
  | release | giveBack =>
      simp only [lockEvents] at acquired
      split at acquired <;> simp at acquired
  | tryLock key =>
      simp only [lockEvents] at acquired
      simp only [step]
      cases result : (s.cache.tryLock key).result with
      | ok g' =>
          rw [result] at acquired
          simp only [List.mem_singleton, LockEvent.acquired.injEq] at acquired
          rw [acquired.1]
          exact List.mem_cons_self
      | error f =>
          rw [result] at acquired
          cases acquired

theorem settings_step (s : State) (d : Operation) :
    (s.step d).cache.keys = s.cache.keys ∧ (s.step d).cache.lease = s.cache.lease := by
  have turn := s.cacheStep d
  generalize (s.step d).cache = c at turn ⊢
  cases turn with
  | act a =>
      rw [s.cache.alike_run a]
      exact ⟨rfl, rfl⟩
  | _ => exact ⟨rfl, rfl⟩

theorem settings_after (s : State) (ops : List Operation) :
    (s.after ops).cache.keys = s.cache.keys ∧ (s.after ops).cache.lease = s.cache.lease := by
  induction ops with
  | nil => exact ⟨rfl, rfl⟩
  | cons d past ih =>
      obtain ⟨keys, lease⟩ := settings_step (s.after past) d
      exact ⟨keys.trans ih.1, lease.trans ih.2⟩

/-- The holders in the table are the guards that stand by a log. A guard that ended holds nothing
again, as no other is issued under its token. -/
structure Recorded (s : State) (log : List LockEvent) : Prop where
  settled : s.Settled
  known : ∀ g time, .acquired g time ∈ log → g ∈ s.issued
  ended : ∀ g, Ended log g → ¬ s.locks.Seats g
  dated : ∀ h ∈ s.locks.holders, s.cache.lease.nanos ≤ h.deadline
  stands : ∀ g time, Stands log g time ↔
    ⟨g.key, g.token, time + s.cache.lease.nanos⟩ ∈ s.locks.holders

theorem Recorded.known_step {s : State} {log : List LockEvent} (r : s.Recorded log) (d : Operation)
    (g : Lock.Guard) (time : Nat) (acquired : .acquired g time ∈ s.lockEvents d ++ log) :
    g ∈ (s.step d).issued := by
  obtain new | old := List.mem_append.mp acquired
  · exact issued_of_lockEvents new
  · exact issued_step s d (r.known g time old)

/-- A guard that was issued and holds nothing has its signal, which it keeps. -/
theorem Recorded.ended_step {s : State} {log : List LockEvent} (r : s.Recorded log) (d : Operation)
    (g : Lock.Guard) (ended : Ended (s.lockEvents d ++ log) g) : ¬ (s.step d).locks.Seats g := by
  have settled := r.settled.step d
  have before : Ended log g → ¬ (s.step d).locks.Seats g := by
    intro ended
    obtain ⟨_, _, earlier, time, rfl, acquired, _⟩ := id ended
    have known := r.known g time (by simp [acquired])
    have told : g.token ∈ s.locks.signalled := by
      by_contra going
      exact r.ended g ended ((r.settled.table.live g known).mp going)
    intro seats
    exact (settled.table.live g (issued_step s d known)).mpr seats (signalled_step s d told)
  have turn := s.lockTurn d
  obtain none | ⟨e, one⟩ := turn.events
  · rw [none] at ended
    exact before ended
  · rw [one] at ended turn
    obtain ⟨⟨time, acquired⟩, ends⟩ | old := ended_cons ended
    · rintro ⟨h, member, same⟩
      exact turn.not_seats r.settled (r.known g time acquired) ends h member same
    · exact before old

theorem Recorded.dated_step {s : State} {log : List LockEvent} (r : s.Recorded log) (d : Operation) :
    ∀ h ∈ (s.step d).locks.holders, s.cache.lease.nanos ≤ h.deadline := by
  intro h member
  obtain old | ⟨key, -, rfl⟩ := (s.lockTurn d).origin r.settled member
  · exact r.dated h old
  · exact Nat.le_add_left _ _

/-- Each turn changes the guards that stand as it changes the holders. -/
theorem LockTurn.stands_iff {s : State} {log : List LockEvent} (r : s.Recorded log) {d : Operation}
    {events : List LockEvent} {holders : List Lock.Holder} (turn : s.LockTurn d events holders)
    (g : Lock.Guard) (time : Nat) : Stands (events ++ log) g time ↔
      ⟨g.key, g.token, time + s.cache.lease.nanos⟩ ∈ holders := by
  cases turn with
  | idle => exact r.stands g time
  | taken key =>
      rw [List.singleton_append, stands_cons, r.stands, Lock.Table.mem_install]
      refine or_congr ?_ ?_
      · obtain ⟨own, token⟩ := g
        simp only [LockEvent.acquired.injEq, Lock.Guard.mk.injEq, Lock.Holder.mk.injEq,
          Nat.add_right_cancel_iff, and_assoc, eq_comm]
      · rw [and_comm]
        exact and_congr_right fun _ => not_congr eq_comm
  | @given other keeps =>
      rw [List.singleton_append, stands_cons, r.stands, Lock.Table.mem_release r.settled.table]
      simp only [reduceCtorEq, false_or]
      change ¬ other = g ∧ _ ↔ _ ∧ ¬ g = other
      rw [and_comm, eq_comm]
  | cleared =>
      rw [List.singleton_append, stands_cons]
      simp [LockEvent.Ends]

theorem Recorded.step {s : State} {log : List LockEvent} (r : s.Recorded log) (d : Operation) :
    (s.step d).Recorded (s.lockEvents d ++ log) := by
  obtain ⟨-, lease⟩ := s.settings_step d
  refine ⟨r.settled.step d, r.known_step d, r.ended_step d, ?_, ?_⟩
  · rw [lease]
    exact r.dated_step d
  · rw [lease]
    exact (s.lockTurn d).stands_iff r

theorem recorded_after (c : Config) (ops : List Operation) :
    ((opened c).after ops).Recorded ((opened c).lockLog ops) := by
  induction ops with
  | nil =>
      refine ⟨settled_opened c, nofun, ?_, nofun, fun g time => ?_⟩
      · rintro g ⟨later, e, earlier, time, eq, -, -⟩
        simp [lockLog] at eq
      · exact iff_of_false (not_stands_nil g time) nofun
  | cons d past ih => exact ih.step d

theorem Recorded.exists_stands_iff {s : State} {log : List LockEvent} (r : s.Recorded log)
    (g : Lock.Guard) : (∃ time, Stands log g time) ↔ s.locks.Seats g := by
  constructor
  · rintro ⟨time, stands⟩
    exact ⟨_, (r.stands g time).mp stands, rfl⟩
  · rintro ⟨h, member, rfl⟩
    refine ⟨h.deadline - s.cache.lease.nanos, (r.stands _ _).mpr ?_⟩
    rwa [Nat.sub_add_cancel (r.dated h member)]

theorem Recorded.keeps {s : State} {log : List LockEvent} (r : s.Recorded log) {g : Lock.Guard}
    (seats : s.locks.Seats g) : s.Keeps g := by
  obtain ⟨h, member, rfl⟩ := seats
  have known := r.settled.table.known h member
  refine ⟨known, fun returned => ?_⟩
  exact (r.settled.table.live _ known).mpr ⟨h, member, rfl⟩ (r.settled.returned _ returned).2

theorem Settled.vacant_step {s : State} (settled : s.Settled) {key : String} {d : Operation}
    (other : d ≠ .tryLock key)
    (vacant : ∀ h ∈ s.locks.holders, h.key ≠ s.cache.keys.qualify key) :
    ∀ h ∈ (s.step d).locks.holders, h.key ≠ (s.step d).cache.keys.qualify key := by
  rw [(s.settings_step d).1]
  intro h member
  obtain old | ⟨key', rfl, rfl⟩ := (s.lockTurn d).origin settled member
  · exact vacant h old
  · intro same
    exact other (congrArg Operation.tryLock (s.cache.keys.qualify_injective same))

theorem Settled.vacant_after {s : State} (settled : s.Settled) {key : String}
    (vacant : ∀ h ∈ s.locks.holders, h.key ≠ s.cache.keys.qualify key) {ops : List Operation}
    (others : ∀ d ∈ ops, d ≠ .tryLock key) :
    ∀ h ∈ (s.after ops).locks.holders, h.key ≠ (s.after ops).cache.keys.qualify key := by
  induction ops with
  | nil => exact vacant
  | cons d past ih =>
      exact (settled.after past).vacant_step (others d List.mem_cons_self)
        (ih fun d member => others d (List.mem_cons_of_mem _ member))

theorem Settled.tryLock_of_vacant {s : State} (settled : s.Settled) {key : String}
    (vacant : ∀ h ∈ s.locks.holders, h.key ≠ s.cache.keys.qualify key) :
    (∃ g, (s.cache.tryLock key).result = .ok g) ↔ s.cache.Reckons := by
  rw [result_tryLock, Lock.Table.take_ok_iff settled.table]
  exact and_iff_left fun h member same => absurd same (vacant h member)

/-- What a try of a key should come to, by what happened to the locks before. -/
structure TryFollows (s : State) (log : List LockEvent) (key : String) : Prop where
  /-- The lock is taken just when no guard of the key stands before its deadline. -/
  granted : (∃ g, (s.cache.tryLock key).result = .ok g) ↔
    ¬ ∃ g time, g.key = s.cache.keys.qualify key ∧ Stands log g time ∧
      s.cache.now < time + s.cache.lease.nanos
  /-- Otherwise it is refused, and every holder, deadline and signal is as before. -/
  refused : (¬ ∃ g, (s.cache.tryLock key).result = .ok g) →
    (s.cache.tryLock key).result = .error .notLocked ∧
      (s.step (.tryLock key)).locks.holders = s.locks.holders ∧
      (s.step (.tryLock key)).locks.signalled = s.locks.signalled

/-- What becomes of the locks of a cache, by what happened to them before. -/
structure LocksFollow (s : State) (log : List LockEvent) : Prop where
  /-- A try comes to what it should just when the clock comes to the deadline of a lock that is taken
  now. -/
  tries : ∀ key, s.TryFollows log key ↔ s.cache.Reckons
  /-- Without that deadline the caller ends, and every holder, deadline and signal is as before. -/
  late : ¬ s.cache.Reckons → ∀ key,
    (s.cache.tryLock key).result = .error (.panicked Clock.overflow) ∧
      (s.step (.tryLock key)).locks.holders = s.locks.holders ∧
      (s.step (.tryLock key)).locks.signalled = s.locks.signalled
  /-- To give back a guard that was superseded or cleared changes nothing. -/
  stale : ∀ g, Ended log g → (s.step (.giveBack g)).locks = s.locks
  /-- After one that stands is given back, the next to try its key takes it, whenever the clock comes
  to the deadline. -/
  freed : ∀ key g time, g.key = s.cache.keys.qualify key → Stands log g time →
    ∀ later, (∀ d ∈ later, d ≠ .tryLock key) →
      let after := ((s.step (.giveBack g)).after later).cache
      (∃ g', (after.tryLock key).result = .ok g') ↔ after.Reckons

/-- A try that does not take the lock tells why, and changes no holder and no signal. -/
theorem tryLock_of_not_granted (s : State) {key : String}
    (denied : ¬ ∃ g, (s.cache.tryLock key).result = .ok g) :
    (s.cache.tryLock key).result =
        (if s.cache.Reckons then .error .notLocked else .error (.panicked Clock.overflow)) ∧
      (s.step (.tryLock key)).locks.holders = s.locks.holders ∧
      (s.step (.tryLock key)).locks.signalled = s.locks.signalled := by
  rw [result_tryLock] at denied ⊢
  rw [locks_tryLock]
  obtain ⟨result, -⟩ | ⟨state, ⟨result, early⟩ | ⟨result, late⟩⟩ :=
    s.locks.take_cases (s.cache.keys.qualify key) s.cache.now s.cache.lease
  · exact absurd ⟨_, result⟩ denied
  · have early : s.cache.Reckons := early
    rw [result, state, if_pos early]
    exact ⟨rfl, rfl, rfl⟩
  · have late : ¬ s.cache.Reckons := Nat.not_le.mpr late
    rw [result, state, if_neg late]
    exact ⟨rfl, rfl, rfl⟩

section Follows

variable {s : State} {log : List LockEvent}

theorem Recorded.granted_iff (r : s.Recorded log) (key : String) :
    (∃ g, (s.cache.tryLock key).result = .ok g) ↔ s.cache.Reckons ∧
      ¬ ∃ g time, g.key = s.cache.keys.qualify key ∧ Stands log g time ∧
        s.cache.now < time + s.cache.lease.nanos := by
  rw [result_tryLock, Lock.Table.take_ok_iff r.settled.table]
  refine and_congr_right fun _ => ?_
  constructor
  · rintro due ⟨g, time, same, stands, early⟩
    exact Nat.not_lt.mpr (due _ ((r.stands g time).mp stands) same) early
  · intro none h member same
    by_contra late
    obtain ⟨time, stands⟩ := (r.exists_stands_iff h.guard).mpr ⟨h, member, rfl⟩
    have deadline : h.deadline = time + s.cache.lease.nanos :=
      congrArg Lock.Holder.deadline
        (r.settled.table.holder_unique member ((r.stands h.guard time).mp stands) rfl)
    exact none ⟨h.guard, time, same, stands, by omega⟩

theorem Recorded.tryFollows_iff (r : s.Recorded log) (key : String) :
    s.TryFollows log key ↔ s.cache.Reckons := by
  constructor
  · intro follows
    by_contra late
    have denied : ¬ ∃ g, (s.cache.tryLock key).result = .ok g :=
      fun taken => late ((r.granted_iff key).mp taken).1
    have told := (s.tryLock_of_not_granted denied).1
    rw [if_neg late, (follows.refused denied).1] at told
    cases told
  · intro early
    refine ⟨(r.granted_iff key).trans (and_iff_right early), fun denied => ?_⟩
    have told := s.tryLock_of_not_granted denied
    rwa [if_pos early] at told

/-- Once a guard that stands is given back, nobody holds its key. -/
theorem Recorded.vacant_giveBack (r : s.Recorded log) {g : Lock.Guard} (seats : s.locks.Seats g)
    {key : String} (same : g.key = s.cache.keys.qualify key) :
    ∀ h ∈ (s.step (.giveBack g)).locks.holders,
      h.key ≠ (s.step (.giveBack g)).cache.keys.qualify key := by
  have after : (s.step (.giveBack g)).locks = (s.locks.release g).state := by
    simp only [State.step, if_pos (r.keeps seats)]
    rfl
  rw [after, (s.settings_step _).1]
  intro h member key'
  obtain ⟨old, other⟩ := (Lock.Table.mem_release r.settled.table g h).mp member
  obtain ⟨own, seated, rfl⟩ := seats
  rw [r.settled.table.holder_unique old seated (key'.trans same.symm)] at other
  exact other rfl

theorem Recorded.follow (r : s.Recorded log) : s.LocksFollow log := by
  refine ⟨r.tryFollows_iff, fun late key => ?_, fun g ended => ?_, ?_⟩
  · have told := s.tryLock_of_not_granted fun taken => late ((r.granted_iff key).mp taken).1
    rwa [if_neg late] at told
  · simp only [State.step]
    split
    · exact Lock.Table.release_of_not_seats (r.ended g ended)
    · rfl
  · intro key g time same stands later others
    have vacant := r.vacant_giveBack ((r.exists_stands_iff g).mp ⟨time, stands⟩) same
    have settled := r.settled.step (.giveBack g)
    exact (settled.after later).tryLock_of_vacant (settled.vacant_after vacant others)

end Follows

/-- In every run of a local cache, what becomes of its locks follows from what happened to them, as
long as the clock comes to the deadlines. -/
theorem locks_follow_while_reckoned (c : Config) (ops : List Operation) :
    ((opened c).after ops).cache.keys = ⟨c.name⟩ ∧
      ((opened c).after ops).cache.lease = c.leaseOf ∧
      ((opened c).after ops).LocksFollow ((opened c).lockLog ops) := by
  obtain ⟨keys, lease⟩ := settings_after (opened c) ops
  exact ⟨keys, lease, (recorded_after c ops).follow⟩

/-- A lock that was taken, lost to another caller at its deadline, and given back after that. -/
def takenOver : List Operation :=
  [.giveBack ⟨"app:l", 1⟩, .tryLock "l", .sleep (.ofSeconds 5), .tryLock "l"]

/-- Whoever took the lock over keeps it: the next try is refused. -/
theorem refused_after_takeover :
    let s := (opened (.ofCodec "app" (.described .plain .text))).after takenOver
    s.cache.Reckons ∧ (s.cache.tryLock "l").result = .error .notLocked := by
  intro s
  have follows : s.LocksFollow _ :=
    (locks_follow_while_reckoned (.ofCodec "app" (.described .plain .text)) takenOver).2.2
  have early : s.cache.Reckons := by decide
  have tries := (follows.tries "l").mpr early
  refine ⟨early, (tries.refused fun taken => tries.granted.mp taken ?_).1⟩
  refine ⟨⟨"app:l", 2⟩, 5000000000, rfl, ⟨[.returned ⟨"app:l", 1⟩], _, rfl, ?_⟩, by decide⟩
  simp [LockEvent.Ends]

/-- With the longest lease, which no cache is refused for, no try of a new cache comes to what it
should: nobody holds the lock, and the caller ends. -/
theorem not_tryFollows_of_longest :
    (lengthy .inProcess "").validate = .ok () ∧
      ((opened (lengthy .inProcess "")).cache.tryLock "l").result =
        .error (.panicked Clock.overflow) ∧
      ¬ (opened (lengthy .inProcess "")).TryFollows [] "l" := by
  have late : ¬ (opened (lengthy .inProcess "")).cache.Reckons := by decide
  exact ⟨rfl, by decide, mt ((recorded_after (lengthy .inProcess "") []).tryFollows_iff "l").mp late⟩

end State
end Local
end CacheFacade
