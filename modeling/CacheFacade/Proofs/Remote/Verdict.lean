import CacheFacade.Proofs.Remote.Course
import CacheFacade.Proofs.Remote.Settle

/-!
What a round comes to. It takes the lock just when a majority of its replicas were written in time,
and then keeps them all; otherwise it lets go exactly those that it wrote. It shows a fault only
where every replica failed, and then that of the last one.
-/

namespace CacheFacade
namespace Remote

open Happening (exchanged)

/-- The replica failed, whatever the fault. -/
def Mark.Fails (m : Mark) : Prop := ∃ f, m = .failed f

theorem Mark.fails_iff {m : Mark} : m.Fails ↔ m ≠ .contended ∧ m ≠ .taken := by
  cases m <;> simp [Mark.Fails]

theorem map_fault_of_fails {marks : List Mark} (all : ∀ m ∈ marks, m.Fails) :
    (marks.filterMap Mark.fault?).map .failed = marks := by
  induction marks with
  | nil => rfl
  | cons m marks ih =>
      obtain ⟨⟨f, rfl⟩, others⟩ := List.forall_mem_cons.mp all
      exact congrArg (Mark.failed f :: ·) (ih others)

namespace Round

/-- Of numbered replicas, a round holds those whose marks say so, in the order of their numbers. -/
theorem held_zip_range (f : Nat → String) (marks : List Mark) :
    held (((List.range marks.length).map f).zip marks) =
      ((List.range marks.length).filter fun i => marks[i]? = some .taken).map f := by
  induction marks generalizing f with
  | nil => rfl
  | cons m marks ih =>
      have others := ih fun i => f (i + 1)
      simp only [held] at others ⊢
      rw [List.length_cons, List.range_succ_eq_map, List.map_cons, List.map_map, List.zip_cons_cons]
      by_cases taken : m = .taken
      · simpa [taken, List.filter_map, Function.comp_def] using others
      · simpa [taken, List.filter_map, Function.comp_def] using others

/-- The marks of a round, without the names of its replicas. -/
def marks (r : Round) : List Mark := r.map (·.2)

theorem isContended_iff (r : Round) : r.isContended = true ↔ .contended ∈ r.marks := by
  simp [isContended, marks]

theorem held_isEmpty_iff (r : Round) : r.held.isEmpty = true ↔ .taken ∉ r.marks := by
  rw [List.isEmpty_iff, held, List.map_eq_nil_iff, List.filter_eq_nil_iff, marks, List.mem_map]
  simp only [decide_eq_true_eq, not_exists, not_and]

theorem faults_eq (r : Round) : r.faults = r.marks.filterMap Mark.fault? := by
  rw [faults, marks, List.filterMap_map]
  rfl

theorem quiet_and_empty_iff (r : Round) :
    (!r.isContended && r.held.isEmpty) = true ↔ ∀ m ∈ r.marks, m.Fails := by
  rw [Bool.and_eq_true, Bool.not_eq_true', ← Bool.not_eq_true, isContended_iff, held_isEmpty_iff]
  constructor
  · rintro ⟨uncontended, untaken⟩ m member
    exact Mark.fails_iff.mpr ⟨fun same => uncontended (same ▸ member),
      fun same => untaken (same ▸ member)⟩
  · exact fun all => ⟨fun member => (Mark.fails_iff.mp (all _ member)).1 rfl,
      fun member => (Mark.fails_iff.mp (all _ member)).2 rfl⟩

theorem getLast?_faults {r : Round} (all : ∀ m ∈ r.marks, m.Fails) (f : Fault) :
    r.faults.getLast? = some f ↔ r.marks.getLast? = some (.failed f) := by
  rw [← map_fault_of_fails all, ← faults_eq, List.getLast?_map, Option.map_eq_some_iff]
  simp

/-- A round shows a fault just when every replica failed: that of the last one. -/
theorem verdict_failed_iff (r : Round) {majority : Nat} (positive : 1 ≤ majority) (validity : Span)
    (elapsed : Nat) (f : Fault) :
    r.verdict majority validity elapsed = .failed f ↔
      (∀ m ∈ r.marks, m.Fails) ∧ r.marks.getLast? = some (.failed f) := by
  have none (all : ∀ m ∈ r.marks, m.Fails) : r.held = [] := by
    have both := (quiet_and_empty_iff r).mpr all
    exact List.isEmpty_iff.mp (Bool.and_eq_true_iff.mp both).2
  rw [verdict]
  split
  case isTrue taken =>
    refine iff_of_false nofun fun failed => ?_
    rw [none failed.1] at taken
    exact Nat.not_le.mpr positive taken.1
  case isFalse =>
    constructor
    · intro failed
      split at failed
      case h_1 g last =>
        split at failed
        case isTrue alone =>
          cases failed
          have all := (quiet_and_empty_iff r).mp alone
          exact ⟨all, (getLast?_faults all f).mp last⟩
        case isFalse => cases failed
      case h_2 => cases failed
    · rintro ⟨all, last⟩
      simp only [(getLast?_faults all f).mpr last, (quiet_and_empty_iff r).mpr all, if_true]

end Round

namespace Plan

variable {α σ : Type} {link : Link σ}

theorem value_logLines (ls : List Line) (f : Unit → Plan α) (s : σ) :
    (((logLines ls).bind f).run link s).value = ((f ()).run link s).value := by
  induction ls with
  | nil => rfl
  | cons l ls ih => exact ih

theorem trace_logLines (ls : List Line) (f : Unit → Plan α) (s : σ) :
    ((logLines ls).bind f).trace link s = (f ()).trace link s := by
  induction ls with
  | nil => rfl
  | cons l ls ih => exact ih

end Plan

namespace Quorum

/-- The commands that a round begins with, one for each replica. -/
def acquires (q : Quorum) (key token : String) : List Command :=
  (q.replicas key).map (.acquire · token (milliseconds q.validity))

/-- The replicas whose marks say that they were written, in the order of their numbers. -/
def written (q : Quorum) (key : String) (marks : List Mark) : List String :=
  ((List.range q.size).filter fun i => marks[i]? = some .taken).map (q.keys.replicaKey key)

/-- How a round ends, by the marks of its replicas and the time that it took: its verdict, and what
it asks for after its replicas have answered. -/
structure Ends (q : Quorum) (key token : String) (marks : List Mark) (elapsed : Nat) (v : Verdict)
    (after : List Happening) : Prop where
  acquired_iff : (∃ held, v = .acquired held) ↔
    q.majority ≤ (q.written key marks).length ∧ elapsed < q.validity.nanos
  /-- What was written in time is held, and nothing more is asked for. -/
  kept : ∀ held, v = .acquired held → held = q.written key marks ∧ after = []
  /-- Otherwise what was written is let go, and nothing else. -/
  released : (¬ ∃ held, v = .acquired held) →
    ∃ gone : List Outcome, gone.length = (q.written key marks).length ∧
      after = exchanged ((q.written key marks).map (.release · token)) gone
  failed_iff : ∀ f, v = .failed f ↔
    (∀ m ∈ marks, m.Fails) ∧ marks.getLast? = some (.failed f)
  busy_iff : v = .busy ↔
    ¬ (q.majority ≤ (q.written key marks).length ∧ elapsed < q.validity.nanos) ∧
      ¬ ∀ m ∈ marks, m.Fails

section

variable {σ : Type} {link : Link σ} {s s' : σ} {os : List Outcome} {q : Quorum} {key token : String}

/-- The round that outcomes make of the replicas of a lock. -/
def concluded (q : Quorum) (key : String) (os : List Outcome) : Round :=
  (q.replicas key).zip (os.map Mark.ofOutcome)

theorem length_of_exchange (exchange : link.exchange (q.acquires key token) s = (os, s')) :
    os.length = q.size := by
  have all := link.length_exchange (q.acquires key token) s
  rw [exchange] at all
  simpa [acquires, replicas] using all

theorem marks_concluded (all : os.length = q.size) :
    (q.concluded key os).marks = os.map Mark.ofOutcome := by
  rw [Round.marks, concluded, List.map_snd_zip]
  simp [replicas, all]

theorem held_concluded (all : os.length = q.size) :
    (q.concluded key os).held = q.written key (os.map Mark.ofOutcome) := by
  have numbered := Round.held_zip_range (q.keys.replicaKey key) (os.map Mark.ofOutcome)
  rw [List.length_map, all] at numbered
  exact numbered

/-- What is done once all replicas have answered. -/
def conclude (q : Quorum) (key token : String) (r : Round) : Verdict → Plan Verdict
  | .acquired held => do
    Plan.logLine (.done s!"Redis LOCK {q.keys.qualify key} ({held.length}/{q.size} replicas)")
    return .acquired held
  | other => do
    letGo r.held token
    return other

theorem round_eq (q : Quorum) (key token : String) :
    q.round key token = .clock fun started => .ask (q.acquires key token) fun os =>
      (Plan.logLines (q.concluded key os).failureLines).bind fun _ => .clock fun now =>
        q.conclude key token (q.concluded key os)
          ((q.concluded key os).verdict q.majority q.validity (now - started)) := by
  rfl

theorem trace_round (exchange : link.exchange (q.acquires key token) s = (os, s')) :
    (q.round key token).trace link s = exchanged (q.acquires key token) os ++
      (q.conclude key token (q.concluded key os) ((q.concluded key os).verdict q.majority q.validity
        (link.now s' - link.now s))).trace link s' := by
  simp only [round_eq, Plan.trace, exchange, Plan.trace_logLines]

theorem value_round (exchange : link.exchange (q.acquires key token) s = (os, s')) :
    ((q.round key token).run link s).value = (q.concluded key os).verdict q.majority q.validity
        (link.now s' - link.now s) := by
  simp only [round_eq, Plan.run, exchange, Run.after, Plan.value_logLines]
  generalize (q.concluded key os).verdict _ _ _ = v
  cases v with
  | acquired held => rfl
  | busy | failed f =>
      change (((letGo _ token).bind fun _ => .done _).run link s').value = _
      rw [Plan.value_bind]
      rfl

/-- The commands by which a round lets go of replicas. -/
def releases (token : String) (replicas : List String) : List Command :=
  replicas.map (.release · token)

theorem conclude_of_missed (q : Quorum) (key token : String) (r : Round) {v : Verdict}
    (missed : ¬ ∃ held, v = .acquired held) :
    q.conclude key token r v = (letGo r.held token).bind fun _ => .done v := by
  cases v with
  | acquired held => exact absurd ⟨held, rfl⟩ missed
  | busy | failed f => rfl

theorem trace_conclude (r : Round) {v : Verdict} (missed : ¬ ∃ held, v = .acquired held) :
    (q.conclude key token r v).trace link s =
      exchanged (releases token r.held) (link.exchange (releases token r.held) s).1 := by
  rw [conclude_of_missed q key token r missed, Plan.trace_bind, trace_letGo]
  exact List.append_nil _

theorem busy_iff {marks : List Mark} (nonempty : marks ≠ []) {v : Verdict} {enough : Prop}
    (acquired : (∃ held, v = .acquired held) ↔ enough)
    (failed : ∀ f, v = .failed f ↔ (∀ m ∈ marks, m.Fails) ∧ marks.getLast? = some (.failed f)) :
    v = .busy ↔ ¬ enough ∧ ¬ ∀ m ∈ marks, m.Fails := by
  cases v with
  | acquired held => exact iff_of_false nofun fun missed => missed.1 (acquired.mp ⟨held, rfl⟩)
  | failed f => exact iff_of_false nofun fun missed => missed.2 ((failed f).mp rfl).1
  | busy =>
      refine iff_of_true rfl ⟨fun taken => ?_, fun all => ?_⟩
      · obtain ⟨held, same⟩ := acquired.mpr taken
        cases same
      · obtain ⟨f, last⟩ := all _ (List.getLast_mem nonempty)
        have shown := (failed f).mpr ⟨all, by rw [List.getLast?_eq_some_getLast nonempty, last]⟩
        cases shown

theorem round_ends (positive : 1 ≤ q.majority)
    (exchange : link.exchange (q.acquires key token) s = (os, s')) :
    ∃ after, (q.round key token).trace link s = exchanged (q.acquires key token) os ++ after ∧
      q.Ends key token (os.map Mark.ofOutcome) (link.now s' - link.now s)
        ((q.round key token).run link s).value after := by
  have all := length_of_exchange exchange
  have nonempty : os.map Mark.ofOutcome ≠ [] := by
    rintro none
    rw [List.map_eq_nil_iff.mp none, List.length_nil, size] at all
    omega
  refine ⟨_, trace_round exchange, ?_⟩
  rw [value_round exchange]
  have acquired := verdict_acquired_iff (q.concluded key os) q.majority q.validity
    (link.now s' - link.now s)
  have failed := Round.verdict_failed_iff (q.concluded key os) positive q.validity
    (link.now s' - link.now s)
  rw [held_concluded all] at acquired
  rw [marks_concluded all] at failed
  generalize (q.concluded key os).verdict _ _ _ = v at acquired failed
  have acquired_iff : (∃ held, v = .acquired held) ↔
      q.majority ≤ (q.written key (os.map Mark.ofOutcome)).length ∧
        link.now s' - link.now s < q.validity.nanos := by
    simp only [acquired, exists_and_left, exists_eq, and_true]
  refine ⟨acquired_iff, ?_, ?_, failed, busy_iff nonempty acquired_iff failed⟩
  · rintro held rfl
    exact ⟨((acquired held).mp rfl).2, rfl⟩
  · intro missed
    rw [← held_concluded all]
    refine ⟨_, ?_, trace_conclude _ missed⟩
    rw [link.length_exchange, releases, List.length_map]

/-- What a caller is told of a verdict. -/
def reply (q : Quorum) (key token : String) : Verdict → Except Fault Lease
  | .acquired held => .ok ⟨q.keys.qualify key, token, held, q.majority, q.validity⟩
  | .busy => .error .notLocked
  | .failed f => .error f

theorem tryLock_eq_round {s₀ : σ} (draw : link.draw s = (token, s₀)) :
    ((q.tryLock key).run link s).value =
        q.reply key token ((q.round key token).run link s₀).value ∧
      (q.tryLock key).trace link s = (q.round key token).trace link s₀ := by
  obtain ⟨next, shape, told⟩ :
      ∃ next : String → Verdict → Plan (Except Fault Lease),
        q.tryLock key = .draw (fun token => (q.round key token).bind (next token)) ∧
        ∀ token v (s : σ), ((next token v).run link s).value = q.reply key token v ∧
          (next token v).trace link s = [] := by
    refine ⟨_, rfl, ?_⟩
    intro token v s
    cases v <;> exact ⟨rfl, rfl⟩
  obtain ⟨value, quiet⟩ := told token ((q.round key token).run link s₀).value
    ((q.round key token).run link s₀).state
  simp only [shape, Plan.run, Plan.trace, draw, Plan.run_bind, Plan.trace_bind]
  rw [quiet, List.append_nil]
  exact ⟨value, rfl⟩

end

/-- Whatever becomes of the replicas and however long it takes, a round ends as its marks say, and a
caller who does not wait is told so. -/
theorem attempt_ends {σ : Type} (link : Link σ) (q : Quorum) (positive : 1 ≤ q.majority)
    (key : String) :
    (∀ token s os s', link.exchange (q.acquires key token) s = (os, s') →
      os.length = 2 * q.majority - 1 ∧
      ∃ after, (q.round key token).trace link s = exchanged (q.acquires key token) os ++ after ∧
        q.Ends key token (os.map Mark.ofOutcome) (link.now s' - link.now s)
          ((q.round key token).run link s).value after) ∧
    ∀ s token s₀, link.draw s = (token, s₀) →
      ((q.tryLock key).run link s).value =
          q.reply key token ((q.round key token).run link s₀).value ∧
        (q.tryLock key).trace link s = (q.round key token).trace link s₀ :=
  ⟨fun _ _ _ _ exchange => ⟨length_of_exchange exchange, round_ends positive exchange⟩,
    fun _ _ _ draw => tryLock_eq_round draw⟩

/-- A link over which each exchange takes a second, and every other command finds something. -/
def sluggish : Link Nat where
  exchange commands now :=
    ((List.range commands.length).map fun i => .ok (if i % 2 = 0 then .okay else .nothing),
      now + Span.perSecond)
  now := id
  pass d now := now + d.nanos
  draw now := ("token", now)
  length_exchange commands now := by simp

/-- Locks on three replicas, for a second. -/
def trio : Quorum := ⟨⟨"app"⟩, 2, .ofSeconds 1⟩

/-- Two replicas of three are a majority, but after a second the lock would last no longer. -/
theorem attempt_ends_late :
    ((trio.tryLock "l").run sluggish 0).value = .error .notLocked ∧
      ∃ gone, (trio.tryLock "l").trace sluggish 0 =
        exchanged (trio.acquires "l" "token") [.ok .okay, .ok .nothing, .ok .okay] ++
          exchanged ([0, 2].map fun i => .release (trio.keys.replicaKey "l" i) "token") gone := by
  obtain ⟨rounds, tries⟩ := attempt_ends sluggish trio (by decide) "l"
  obtain ⟨-, after, traced, ends⟩ :=
    rounds "token" 0 [.ok .okay, .ok .nothing, .ok .okay] Span.perSecond rfl
  obtain ⟨value, same⟩ := tries 0 "token" 0 rfl
  have late : ¬ Span.perSecond - 0 < trio.validity.nanos := by decide
  have busy : ((trio.round "l" "token").run sluggish 0).value = .busy := by
    refine ends.busy_iff.mpr ⟨fun taken => late taken.2, fun all => ?_⟩
    obtain ⟨f, failed⟩ := all .taken List.mem_cons_self
    cases failed
  obtain ⟨gone, -, released⟩ := ends.released (by rw [busy]; nofun)
  refine ⟨by rw [value, busy]; rfl, gone, ?_⟩
  rw [same, traced, released]
  rfl

end Quorum

end Remote
end CacheFacade
