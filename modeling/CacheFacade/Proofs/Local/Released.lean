import CacheFacade.Proofs.Local.Hashes
import CacheFacade.Proofs.Local.Standing
import CacheFacade.Proofs.Local.Tally

/-!
A local cache that is given up, by any clone of its handle, and goes on to be used. The first release
empties it and takes every lock; from then on it is as if new, and no further release, and no guard
from before, reaches what is written and locked in it.
-/

namespace CacheFacade
namespace Local

theorem Cache.writes_of_chosen {c : Cache} {key : String} {a : Action} {life : Expiry}
    (chosen : c.chosen? key a = some life) : ∃ e, c.effect? key a = some e ∧ e.writes = true := by
  cases effect : c.effect? key a with
  | none =>
      rw [chosen?_of_effect?_eq_none effect] at chosen
      cases chosen
  | some e =>
      refine ⟨e, rfl, ?_⟩
      rw [effect?] at effect
      split at effect
      · cases a with
        | set k _ | setFor k _ _ | fieldSet k _ _ | fieldSetFor k _ _ _ =>
            obtain ⟨-, same⟩ := Option.ite_none_right_eq_some.mp effect
            cases same
            rfl
        | increment k _ | decrement k _ =>
            obtain ⟨-, same⟩ := Option.ite_none_right_eq_some.mp effect
            obtain ⟨n, -, rfl⟩ := Option.map_eq_some_iff.mp same
            rfl
        | _ => simp [chosen?] at chosen
      · cases effect

namespace State

variable {s : State}

theorem released_of_released (gone : s.service.released = true) (ops : List Operation) :
    (s.after ops).service.released = true := by
  induction ops with
  | nil => exact gone
  | cons d past ih => rw [after, released_step, ih, Bool.true_or]

theorem step_release_of_released (gone : s.service.released = true) : s.step .release = s := by
  simp only [step, Service.release, gone, if_true]

theorem after_filter_of_released (gone : s.service.released = true) (ops : List Operation) :
    s.after (ops.filter fun d => !d.isRelease) = s.after ops := by
  induction ops with
  | nil => rfl
  | cons d past ih =>
      cases release : d.isRelease with
      | true =>
          have same : d = .release := by
            cases d <;> first | rfl | cases release
          rw [List.filter_cons_of_neg (by simp [release]), ih, same, after,
            step_release_of_released (released_of_released gone past)]
      | false =>
          rw [List.filter_cons_of_pos (by simp [release]), after, after, ih]

theorem entries_release (fresh : s.service.released = false) :
    (s.step .release).cache.store.entries = [] := by
  simp only [step, Service.release, fresh]
  rfl

theorem holders_release (fresh : s.service.released = false) :
    (s.step .release).locks.holders = [] := by
  simp only [step, Service.release, fresh]
  rfl

/-- After a state without entries, a key has nothing as long as nothing is written to it. -/
theorem vacant_of_unwritten (empty : s.cache.store.entries = []) {key : String}
    {later : List Operation} (unwritten : ∀ e ∈ s.history key later, e.writes = false) :
    (s.after later).cache.Vacant key := by
  have none : ∀ e ∈ (s.after later).cache.store.entries,
      e.key ≠ (s.after later).cache.keys.qualify key := by
    induction later with
    | nil =>
        intro e member
        rw [after, empty] at member
        cases member
    | cons d later ih =>
        have before := ih fun e known => unwritten e (List.mem_append_right _ known)
        intro e member own
        rw [after, keys_step] at own
        obtain fixed | ⟨-, ⟨old, there, -⟩ | ⟨there, -⟩⟩ := stored_step member own
        · cases d with
          | act a =>
              obtain ⟨life, chosen, -⟩ := Option.map_eq_some_iff.mp fixed
              obtain ⟨written, effect, writes⟩ := Cache.writes_of_chosen chosen
              have known : written ∈ s.history key (.act a :: later) :=
                List.mem_append_left _ (Option.mem_toList.mpr effect)
              rw [unwritten written known] at writes
              cases writes
          | _ => cases fixed
        · exact before old there.member there.own
        · exact before e there own
  refine Cache.vacant_iff.mpr (List.find?_eq_none.mpr fun e member => ?_)
  simpa using none e member

theorem issued_after (ops : List Operation) {g : Lock.Guard} (known : g ∈ s.issued) :
    g ∈ (s.after ops).issued := by
  induction ops with
  | nil => exact known
  | cons d past ih => exact issued_step _ d ih

theorem Settled.locks_giveBack (settled : s.Settled) {g : Lock.Guard} (known : g ∈ s.issued)
    (cancelled : s.locks.isCancelled g.token = true) : (s.step (.giveBack g)).locks = s.locks := by
  have unseated : ¬ s.locks.Seats g := by
    rw [← settled.table.live g known, not_not, ← Lock.Table.isCancelled_iff]
    exact cancelled
  simp only [State.step]
  split
  · exact Lock.Table.release_of_not_seats unseated
  · rfl

theorem Settled.cancelled (settled : s.Settled) (vacant : s.locks.holders = []) {g : Lock.Guard}
    (known : g ∈ s.issued) : s.locks.isCancelled g.token = true := by
  rw [Lock.Table.isCancelled_iff]
  by_contra going
  obtain ⟨h, member, -⟩ := (settled.table.live g known).mp going
  rw [vacant] at member
  cases member

/-- What it comes to that a cache is given up: the state is the one before its first release, and
whatever is done later is done with the same cache. -/
structure GivesUp (s : State) : Prop where
  /-- No key has anything until something is written to it. -/
  emptied : ∀ later key, (∀ e ∈ (s.step .release).history key later, e.writes = false) →
    ((s.step .release).after later).cache.Vacant key
  cancelled : ∀ g ∈ s.issued, ∀ later,
    ((s.step .release).after later).locks.isCancelled g.token = true
  /-- A guard from before frees no lock. -/
  stale : ∀ g ∈ s.issued, ∀ later, (((s.step .release).after later).step (.giveBack g)).locks =
    ((s.step .release).after later).locks
  /-- Another release does and tells nothing. -/
  again : ∀ later, ((s.step .release).after later).service.release =
    ⟨.ok (), ((s.step .release).after later).service, []⟩
  /-- Nor do any number of them, wherever they stand. -/
  erased : ∀ later, (s.step .release).after (later.filter fun d => !d.isRelease) =
    (s.step .release).after later

/-- In every run of a local cache, the first release clears what there was, and the later ones leave
what there is. -/
theorem givesUp_after (c : Config) (past : List Operation) (first : released past = false) :
    ((opened c).after past).GivesUp := by
  have fresh : ((opened c).after past).service.released = false :=
    (released_after c past).trans first
  have gone : (((opened c).after past).step .release).service.released = true := by
    rw [released_step, Operation.isRelease, Bool.or_true]
  have settled : (((opened c).after past).step .release).Settled :=
    ((settled_opened c).after past).step .release
  have cancelled : ∀ g ∈ ((opened c).after past).issued, ∀ later,
      ((((opened c).after past).step .release).after later).locks.isCancelled g.token = true := by
    intro g known later
    have told := settled.cancelled (holders_release fresh) (issued_step _ .release known)
    rw [Lock.Table.isCancelled_iff] at told ⊢
    exact signalled_after _ later told
  refine ⟨fun later key unwritten => ?_, cancelled, fun g known later => ?_, fun later => ?_,
    after_filter_of_released gone⟩
  · exact vacant_of_unwritten (entries_release fresh) unwritten
  · have still := issued_after later (issued_step _ .release known)
    exact (settled.after later).locks_giveBack still (cancelled g known later)
  · simp only [Service.release, released_of_released gone later, if_true]

/-- A cache of texts, in which a value is written and a lock is taken. -/
def occupied : State :=
  (opened (.ofCodec "users" (.described .plain .text))).after
    [.tryLock "job", .act (.set "alice" (.text "admin"))]

/-- The lock is taken anew, its old guard is given back, another value is written, and the cache is
given up once more. -/
def reused : List Operation :=
  [.release, .act (.set "bob" (.text "guest")), .giveBack ⟨"users:job", 1⟩, .tryLock "job"]

theorem givesUp_of_occupied :
    released [.tryLock "job", .act (.set "alice" (.text "admin"))] = false ∧ occupied.GivesUp ∧
      (let s := (occupied.step .release).after reused;
        s.cache.Vacant "alice" ∧ (s.cache.get "bob").result = .ok (some (.text "guest")) ∧
          s.locks.isCancelled 1 = true ∧ s.locks.isCancelled 2 = false ∧
          s.locks.Seats ⟨"users:job", 2⟩) := by
  have givesUp : occupied.GivesUp := givesUp_after _ _ rfl
  refine ⟨rfl, givesUp, ?_, rfl, ?_, rfl, ?_⟩
  · apply givesUp.emptied
    intro e member
    cases member
  · exact givesUp.cancelled ⟨"users:job", 1⟩ List.mem_cons_self reused
  · exact ⟨_, List.mem_cons_self, rfl⟩

end State
end Local
end CacheFacade
