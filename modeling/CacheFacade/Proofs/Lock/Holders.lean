import CacheFacade.Proofs.Lock.Seating

/-!
The holders of a table after each of its operations, and when a lock can be taken: just when its key
has no holder, or one whose deadline is there, and the clock comes to the end of the lease.
-/

namespace CacheFacade
namespace Lock
namespace Table

variable {t : Table} {issued : List Guard}

theorem mem_install {new h : Holder} :
    h ∈ (t.install new).holders ↔ h = new ∨ h ∈ t.holders ∧ h.key ≠ new.key := by
  simp [install]

theorem holder?_eq_none {key : String} (vacant : t.holder? key = none) {h : Holder}
    (member : h ∈ t.holders) : h.key ≠ key := by
  simpa using List.find?_eq_none.mp vacant h member

/-- A guard that holds its key gives it up; no other holder is touched. -/
theorem mem_release (c : t.Consistent issued) (g : Guard) (h : Holder) :
    h ∈ (t.release g).state.holders ↔ h ∈ t.holders ∧ h.guard ≠ g := by
  have seat : h.guard = g → h.key = g.key ∧ h.token = g.token := by
    rintro rfl
    exact ⟨rfl, rfl⟩
  simp only [release]
  cases found : t.holder? g.key with
  | none =>
      refine ⟨fun member => ⟨member, fun same => ?_⟩, And.left⟩
      exact holder?_eq_none found member (seat same).1
  | some h' =>
      obtain ⟨member', key⟩ := holder?_eq_some found
      by_cases own : h'.token = g.token
      · have guard : h'.guard = g := by
          rw [Holder.guard, key, own]
        simp only [if_pos own, List.mem_filter, bne_iff_ne]
        refine and_congr_right fun member => not_congr ⟨fun same => ?_, fun same => (seat same).1⟩
        rw [c.holder_unique member member' (same.trans key.symm), guard]
      · simp only [if_neg own]
        refine ⟨fun member => ⟨member, fun same => own ?_⟩, And.left⟩
        rw [← (seat same).2, c.holder_unique member' member (key.trans (seat same).1.symm)]

theorem release_of_not_seats {g : Guard} (unseated : ¬ t.Seats g) : (t.release g).state = t := by
  simp only [release]
  cases found : t.holder? g.key with
  | none => rfl
  | some h =>
      obtain ⟨member, key⟩ := holder?_eq_some found
      have other : ¬ h.token = g.token := by
        intro own
        exact unseated ⟨h, member, by rw [Holder.guard, key, own]⟩
      simp only [if_neg other]

theorem take_ok_iff (c : t.Consistent issued) (key : String) (now : Nat) (validity : Span) :
    (∃ g, (t.take key now validity).result = .ok g) ↔
      now + validity.nanos ≤ Clock.last ∧ ∀ h ∈ t.holders, h.key = key → h.deadline ≤ now := by
  simp only [take]
  rw [show holder? { t with nextToken := t.nextToken + 1 } key = t.holder? key from rfl]
  cases reckoned : Clock.after? now validity with
  | none =>
      have late := Clock.after?_eq_none_iff.mp reckoned
      refine iff_of_false ?_ fun early => Nat.not_le.mpr late early.1
      rintro ⟨g, told⟩
      cases told
  | some deadline =>
      obtain ⟨early, -⟩ := Clock.after?_eq_some_iff.mp reckoned
      rw [and_iff_right early]
      cases found : t.holder? key with
      | none =>
          refine ⟨fun _ h member same => ?_, fun _ => ⟨_, rfl⟩⟩
          exact absurd same (holder?_eq_none found member)
      | some h =>
          obtain ⟨member, same⟩ := holder?_eq_some found
          by_cases live : now < h.deadline
          · simp only [if_pos live, reduceCtorEq, exists_false, false_iff]
            intro due
            exact Nat.not_lt.mpr (due h member same) live
          · simp only [if_neg live, Except.ok.injEq, exists_eq', true_iff]
            intro h' member' same'
            rw [c.holder_unique member' member (same'.trans same.symm)]
            exact Nat.not_lt.mp live

end Table
end Lock
end CacheFacade
