import CacheFacade.Proofs.Local.State
import CacheFacade.Proofs.Local.Works
import CacheFacade.Proofs.Lock.Seating

/-!
Who holds the locks of a local cache. In every run the signal of a guard is given just when the
table no longer holds its key for it, so of all guards of a key that somebody still has, at most one
is without its signal.
-/

namespace CacheFacade
namespace Local
namespace State

/-- The table knows its guards, and those that were given back have their signal. -/
structure Settled (s : State) : Prop where
  table : s.locks.Consistent s.issued
  returned : ∀ g ∈ s.returned, g ∈ s.issued ∧ g.token ∈ s.locks.signalled

theorem Settled.withCache {s : State} (h : s.Settled) {c : Cache} (same : c.locks = s.locks) :
    (s.withCache c).Settled := by
  constructor
  · change c.locks.Consistent s.issued
    rw [same]
    exact h.table
  · intro g hg
    change g ∈ s.issued ∧ g.token ∈ c.locks.signalled
    rw [same]
    exact h.returned g hg

theorem Settled.close {s : State} (h : s.Settled) {c : Cache} (cleared : c.locks = s.locks.clear) :
    (s.withCache c).Settled := by
  constructor
  · change c.locks.Consistent s.issued
    rw [cleared]
    exact h.table.clear
  · intro g hg
    obtain ⟨known, told⟩ := h.returned g hg
    refine ⟨known, ?_⟩
    change g.token ∈ c.locks.signalled
    rw [cleared]
    exact Lock.Table.signalled_clear told

theorem Settled.tryLock {s : State} (h : s.Settled) (key : String) :
    (s.step (.tryLock key)).Settled := by
  have taken := h.table.take (s.cache.keys.qualify key) s.cache.now s.cache.lease
  have told : ∀ n ∈ s.locks.signalled, n ∈
      (s.locks.take (s.cache.keys.qualify key) s.cache.now s.cache.lease).state.signalled :=
    fun n hn => Lock.Table.signalled_take _ _ _ hn
  simp only [step, Cache.tryLock, Step.map]
  cases result :
      (s.cache.locks.take (s.cache.keys.qualify key) s.cache.now s.cache.lease).result with
  | ok g =>
      change (s.locks.take _ _ _).result = _ at result
      rw [result] at taken
      refine ⟨taken, ?_⟩
      intro g' hg'
      obtain ⟨known, was⟩ := h.returned g' hg'
      exact ⟨List.mem_cons_of_mem _ known, told _ was⟩
  | error f =>
      change (s.locks.take _ _ _).result = _ at result
      rw [result] at taken
      refine ⟨taken, ?_⟩
      intro g' hg'
      obtain ⟨known, was⟩ := h.returned g' hg'
      exact ⟨known, told _ was⟩

theorem Settled.giveBack {s : State} (h : s.Settled) (g : Lock.Guard) :
    (s.step (.giveBack g)).Settled := by
  simp only [step]
  split
  · rename_i keeps
    obtain ⟨table, told⟩ := h.table.release keeps.1
    refine ⟨table, ?_⟩
    intro g' hg'
    obtain rfl | old := List.mem_cons.mp hg'
    · exact ⟨keeps.1, told⟩
    · obtain ⟨known, was⟩ := h.returned g' old
      exact ⟨known, Lock.Table.signalled_release g was⟩
  · exact h

theorem Settled.step {s : State} (h : s.Settled) (d : Operation) : (s.step d).Settled := by
  cases d with
  | act a => exact h.withCache (by rw [s.cache.alike_run a]; rfl)
  | sleep d => exact h.withCache rfl
  | lose gone => exact h.withCache rfl
  | tryLock key => exact h.tryLock key
  | giveBack g => exact h.giveBack g
  | close => exact h.close rfl
  | release =>
      simp only [State.step, Service.release]
      split
      · exact h
      · exact ⟨(h.close (c := s.cache.close.state) rfl).table, (h.close rfl).returned⟩

theorem Settled.after {s : State} (h : s.Settled) (ops : List Operation) :
    (s.after ops).Settled := by
  induction ops with
  | nil => exact h
  | cons d past ih => exact ih.step d

theorem settled_opened (c : Config) : (opened c).Settled := by
  refine ⟨.empty, ?_⟩
  intro g hg
  cases hg

theorem signalled_step (s : State) (d : Operation) {n : Nat} (given : n ∈ s.locks.signalled) :
    n ∈ (s.step d).locks.signalled := by
  cases d with
  | act a =>
      change n ∈ (s.cache.run a).state.locks.signalled
      rw [s.cache.alike_run a]
      exact given
  | sleep d => exact given
  | lose gone => exact given
  | tryLock key =>
      have kept := Lock.Table.signalled_take (s.cache.keys.qualify key) s.cache.now s.cache.lease
        given
      simp only [step]
      split
      · exact kept
      · exact kept
  | giveBack g =>
      simp only [step]
      split
      · exact Lock.Table.signalled_release g given
      · exact given
  | close => exact Lock.Table.signalled_clear given
  | release =>
      simp only [step, Service.release]
      split
      · exact given
      · exact Lock.Table.signalled_clear given

theorem signalled_after (s : State) (ops : List Operation) {n : Nat} (given : n ∈ s.locks.signalled) :
    n ∈ (s.after ops).locks.signalled := by
  induction ops with
  | nil => exact given
  | cons d past ih => exact signalled_step _ d ih

theorem issued_step (s : State) (d : Operation) {g : Lock.Guard} (known : g ∈ s.issued) :
    g ∈ (s.step d).issued := by
  cases d with
  | tryLock key =>
      simp only [step]
      split
      · exact List.mem_cons_of_mem _ known
      · exact known
  | giveBack g' =>
      simp only [step]
      split
      · exact known
      · exact known
  | _ => exact known

theorem Settled.guard_unique {s : State} (h : s.Settled) {g g' : Lock.Guard}
    (seats : s.locks.Seats g) (seats' : s.locks.Seats g') (key : g.key = g'.key) : g = g' := by
  obtain ⟨a, ha, rfl⟩ := seats
  obtain ⟨b, hb, rfl⟩ := seats'
  rw [h.table.holder_unique ha hb key]

/-- The guards of a local cache in a state, and what any further operation makes of them. -/
structure Faithful (s : State) : Prop where
  /-- Of the guards of a key that somebody has, one at most is not cancelled. -/
  exclusive : ∀ g g', s.Keeps g → s.Keeps g' → g.key = g'.key →
    s.locks.isCancelled g.token = false → s.locks.isCancelled g'.token = false → g = g'
  /-- A guard that somebody has is not cancelled just when the table holds its key for it. -/
  seated : ∀ g, s.Keeps g → (s.locks.isCancelled g.token = false ↔ s.locks.Seats g)
  returned : ∀ g ∈ s.returned, s.locks.isCancelled g.token = true
  /-- An operation cancels exactly the guards that it unseats. -/
  unseated : ∀ d g, s.Keeps g → s.locks.isCancelled g.token = false →
    ((s.step d).locks.isCancelled g.token = true ↔ ¬ (s.step d).locks.Seats g)
  /-- What is cancelled stays so. -/
  final : ∀ later n, s.locks.isCancelled n = true → (s.after later).locks.isCancelled n = true

theorem Settled.faithful {s : State} (h : s.Settled) : s.Faithful := by
  have seated : ∀ {s : State}, s.Settled → ∀ g ∈ s.issued,
      (s.locks.isCancelled g.token = false ↔ s.locks.Seats g) := by
    intro s h g known
    rw [← h.table.live g known, ← Lock.Table.isCancelled_iff, Bool.not_eq_true]
  refine ⟨?_, ?_, ?_, ?_, ?_⟩
  · intro g g' keeps keeps' key going going'
    exact h.guard_unique ((seated h g keeps.1).mp going) ((seated h g' keeps'.1).mp going') key
  · intro g keeps
    exact seated h g keeps.1
  · intro g hg
    exact (Lock.Table.isCancelled_iff _ _).mpr (h.returned g hg).2
  · intro d g keeps _
    rw [← seated (h.step d) g (issued_step s d keeps.1), Bool.not_eq_false]
  · intro later n given
    rw [Lock.Table.isCancelled_iff] at given ⊢
    exact signalled_after s later given

/-- In every run of a local cache its guards and its table of locks agree. -/
theorem faithful_after (c : Config) (ops : List Operation) : ((opened c).after ops).Faithful :=
  ((settled_opened c).after ops).faithful

end State
end Local
end CacheFacade
