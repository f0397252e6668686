import CacheFacade.Proofs.Remote.Waiting

/-!
What being refused a lock says. A caller takes it to mean that another holds the lock, and expects
to be shown a fault where only faults kept the lock from being taken. Both hold unless a round wrote
some of its replicas and lost the majority to faults alone: such a round counts as busy, and whoever
waits goes on waiting.
-/

namespace CacheFacade
namespace Remote

/-- A fault that a command fails with: the server or the way to it, or the type of what a key holds. -/
inductive Trouble.Faults : Fault → Prop
  | backend (text : String) : Faults (.backend text)
  | wrongType (text : String) : Faults (.wrongType text)

theorem Trouble.faults_classify (code : Option String) (message : String) :
    Faults (classify code message) := by
  rw [classify]
  split
  · exact .wrongType _
  · exact .backend _

theorem Mark.faults {o : Outcome} {f : Fault} (failed : ofOutcome o = .failed f) :
    Trouble.Faults f := by
  have shown : o.read (Answer.readOptional Answer.readText) = .error f := by
    rw [ofOutcome] at failed
    split at failed
    · cases failed
    · cases failed
    · cases failed
      assumption
  cases o with
  | ok a =>
      rw [Outcome.read] at shown
      cases read : Answer.readOptional Answer.readText a with
      | ok t =>
          rw [read] at shown
          cases shown
      | error m =>
          rw [read] at shown
          cases shown
          exact Trouble.faults_classify _ _
  | error t =>
      cases shown
      cases t with
      | unconnected why => exact .backend _
      | refused r => exact Trouble.faults_classify _ _
      | dropped reason => exact Trouble.faults_classify _ _

/-- No replica fails with what says that a lock is busy. -/
theorem Mark.ne_notLocked {o : Outcome} {f : Fault} (failed : ofOutcome o = .failed f) :
    f ≠ .notLocked := by
  cases Mark.faults failed <;> exact nofun

namespace Quorum

/-- Replicas were written, but not a majority of them, and no replica says that another holds the
lock: the others failed. -/
def Crippled (q : Quorum) (key : String) (marks : List Mark) : Prop :=
  .contended ∉ marks ∧ .taken ∈ marks ∧ (q.written key marks).length < q.majority

/-- What a caller expects of a round with these marks. -/
structure Candid {σ : Type} (q : Quorum) (link : Link σ) (key : String) (s : σ)
    (marks : List Mark) : Prop where
  /-- The lock is busy only if some replica says so. -/
  contended : ((q.tryLock key).run link s).value = .error .notLocked → .contended ∈ marks
  /-- If no replica says so and too few were written, the fault of a replica is shown, also to a
  caller who would wait, and after no other round. -/
  shown : .contended ∉ marks → (q.written key marks).length < q.majority →
    ∃ f, .failed f ∈ marks ∧ ((q.tryLock key).run link s).value = .error f ∧
      ∀ rounds, ((q.lock key (rounds + 1)).run link s).value = .error f ∧
        (q.lock key (rounds + 1)).trace link s = (q.tryLock key).trace link s

variable {σ : Type} {link : Link σ} {q : Quorum} {key token : String} {s s₀ s' : σ}
  {os : List Outcome}

theorem reply_notLocked_iff {v : Verdict} (failed : ∀ f, v = .failed f → f ≠ .notLocked) :
    q.reply key token v = .error .notLocked ↔ v = .busy := by
  cases v with
  | acquired held => exact iff_of_false nofun nofun
  | busy => exact iff_of_true rfl rfl
  | failed f =>
      refine iff_of_false (fun same => ?_) nofun
      cases same
      exact failed _ rfl rfl

theorem Ends.mem_of_failed {marks : List Mark} {elapsed : Nat} {v : Verdict} {f : Fault}
    {after : List Happening} (ends : q.Ends key token marks elapsed v after)
    (failed : v = .failed f) : .failed f ∈ marks :=
  List.mem_of_getLast? ((ends.failed_iff f).mp failed).2

theorem fails_of_untaken {marks : List Mark} (uncontended : .contended ∉ marks)
    (untaken : .taken ∉ marks) : ∀ m ∈ marks, m.Fails := by
  intro m member
  refine Mark.fails_iff.mpr ⟨?_, ?_⟩
  · rintro rfl
    exact uncontended member
  · rintro rfl
    exact untaken member

/-- What a try that ends in time is told, by the marks of its replicas. -/
theorem tryLock_told (positive : 1 ≤ q.majority) (draw : link.draw s = (token, s₀))
    (asked : link.exchange (q.acquires key token) s₀ = (os, s'))
    (inTime : link.now s' - link.now s₀ < q.validity.nanos) :
    (((q.tryLock key).run link s).value = .error .notLocked ↔
      (q.written key (os.map Mark.ofOutcome)).length < q.majority ∧
        ¬ ∀ m ∈ os.map Mark.ofOutcome, m.Fails) ∧
    ((∀ m ∈ os.map Mark.ofOutcome, m.Fails) → ∃ f, .failed f ∈ os.map Mark.ofOutcome ∧
      f ≠ .notLocked ∧ ((q.tryLock key).run link s).value = .error f) := by
  obtain ⟨after, -, ends⟩ := round_ends positive asked
  rw [(tryLock_eq_round draw).1]
  generalize ((q.round key token).run link s₀).value = v at ends ⊢
  have honest : ∀ f, v = .failed f → f ≠ .notLocked := by
    intro f failed
    obtain ⟨o, -, mark⟩ := List.mem_map.mp (ends.mem_of_failed failed)
    exact Mark.ne_notLocked mark
  refine ⟨?_, fun all => ?_⟩
  · rw [reply_notLocked_iff honest, ends.busy_iff]
    simp only [inTime, and_true, Nat.not_le]
  · have nonempty : os.map Mark.ofOutcome ≠ [] := by
      intro none
      have all := length_of_exchange asked
      rw [List.map_eq_nil_iff.mp none, List.length_nil, size] at all
      omega
    obtain ⟨f, last⟩ := all _ (List.getLast_mem nonempty)
    have failed := (ends.failed_iff f).mpr
      ⟨all, by rw [List.getLast?_eq_some_getLast nonempty, last]⟩
    exact ⟨f, ends.mem_of_failed failed, honest f failed, by rw [failed]; rfl⟩

/-- A round that ends in time keeps what a caller expects just when it is not crippled. A crippled
one is told to be busy, and is followed by another round of waiting. -/
theorem candid_iff_not_crippled (link : Link σ) (q : Quorum) (positive : 1 ≤ q.majority)
    (key : String) (draw : link.draw s = (token, s₀))
    (asked : link.exchange (q.acquires key token) s₀ = (os, s'))
    (inTime : link.now s' - link.now s₀ < q.validity.nanos) :
    (Candid q link key s (os.map Mark.ofOutcome) ↔ ¬ q.Crippled key (os.map Mark.ofOutcome)) ∧
    (q.Crippled key (os.map Mark.ofOutcome) →
      ((q.tryLock key).run link s).value = .error .notLocked ∧
      ∀ rounds, ((q.lock key (rounds + 1)).run link s).value = ((q.lock key rounds).run link
        (link.pass retryInterval ((q.tryLock key).run link s).state)).value) := by
  obtain ⟨busy_iff, shown⟩ := tryLock_told positive draw asked inTime
  generalize os.map Mark.ofOutcome = marks at busy_iff shown ⊢
  have busy : q.Crippled key marks → ((q.tryLock key).run link s).value = .error .notLocked := by
    rintro ⟨-, taken, few⟩
    refine busy_iff.mpr ⟨few, fun all => ?_⟩
    exact (Mark.fails_iff.mp (all _ taken)).2 rfl
  refine ⟨⟨?_, ?_⟩, fun crippled => ⟨busy crippled, fun rounds => ?_⟩⟩
  · intro candid crippled
    exact crippled.1 (candid.contended (busy crippled))
  · intro sound
    refine ⟨fun told => ?_, fun uncontended few => ?_⟩
    · obtain ⟨few, some⟩ := busy_iff.mp told
      by_contra uncontended
      have untaken : .taken ∉ marks := fun taken => sound ⟨uncontended, taken, few⟩
      exact some (fails_of_untaken uncontended untaken)
    · have untaken : .taken ∉ marks := fun taken => sound ⟨uncontended, taken, few⟩
      obtain ⟨f, member, other, told⟩ := shown (fails_of_untaken uncontended untaken)
      refine ⟨f, member, told, fun rounds => ?_⟩
      have free : ((q.tryLock key).run link s).value ≠ .error .notLocked := by
        rw [told]
        exact fun same => other (Except.error.inj same)
      obtain ⟨value, -, traced⟩ := lock_of_told rounds free
      exact ⟨value.trans told, traced⟩
  · exact (lock_of_busy rounds (busy crippled) rfl).1

/-- A link over which a replica always meets the same, and no time passes. -/
def steady (f : Nat → Outcome) : Link Unit where
  exchange commands _ := ((List.range commands.length).map f, ())
  now _ := 0
  pass _ _ := ()
  draw _ := ("token", ())
  length_exchange commands _ := by simp

/-- Nothing is reached. -/
def outage : Link Unit := steady fun _ => .error (.dropped "reset")

/-- Only the first replica is reached. -/
def partialOutage : Link Unit :=
  steady fun i => if i = 0 then .ok .okay else .error (.dropped "reset")

/-- Where every replica fails, a caller is shown so, however long it would wait. -/
theorem candid_of_outage :
    ∃ f, ∀ rounds, ((trio.lock "l" (rounds + 1)).run outage ()).value = .error f := by
  obtain ⟨candid_iff, -⟩ :=
    candid_iff_not_crippled outage trio (by decide) "l" (s := ()) rfl rfl (by decide)
  have sound : ¬ trio.Crippled "l" (List.replicate 3 (.failed (.backend "Redis error: reset"))) :=
    fun crippled => by simp [Crippled] at crippled
  obtain ⟨f, -, -, waits⟩ := (candid_iff.mpr sound).shown (by decide) (by decide)
  exact ⟨f, fun rounds => (waits rounds).1⟩

/-- One replica of three is written and the others fail: nobody else has the lock, and a caller who
waits does so for ever. -/
theorem not_candid_of_partialOutage :
    (partialOutage.exchange (trio.acquires "l" "token") ()).1.map Mark.ofOutcome =
        [.taken, .failed (.backend "Redis error: reset"), .failed (.backend "Redis error: reset")] ∧
      ((trio.tryLock "l").run partialOutage ()).value = .error .notLocked ∧
      (∀ rounds, ((trio.lock "l" rounds).run partialOutage ()).value = .error .notLocked) ∧
      ¬ Candid trio partialOutage "l" () ((partialOutage.exchange (trio.acquires "l" "token")
        ()).1.map Mark.ofOutcome) := by
  have busy : ((trio.tryLock "l").run partialOutage ()).value = .error .notLocked := rfl
  refine ⟨rfl, busy, fun rounds => ?_, fun candid => ?_⟩
  · induction rounds with
    | zero => rfl
    | succ rounds ih => exact (lock_of_busy rounds busy rfl).1.trans ih
  · have contended : Mark.contended ∈ _ := candid.contended busy
    revert contended
    decide

end Quorum
end Remote
end CacheFacade
