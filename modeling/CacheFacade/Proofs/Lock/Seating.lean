import CacheFacade.Lock.Table
import Mathlib.Data.List.Nodup

/-!
The holders of a table, the signals it gave and the guards it gave out belong together: the signal
of a guard is still to come just when the table holds its key under its token. Every operation of a
table unseats some holders and signals exactly those, and at most seats one with a new token.
-/

namespace CacheFacade
namespace Lock

def Holder.guard (h : Holder) : Guard := ⟨h.key, h.token⟩

namespace Table

/-- The table holds the key of a guard under the token of the guard. -/
def Seats (t : Table) (g : Guard) : Prop := ∃ h ∈ t.holders, h.guard = g

/-- A table together with all the guards that it gave out. -/
structure Consistent (t : Table) (issued : List Guard) : Prop where
  keys : (t.holders.map Holder.key).Nodup
  fresh : ∀ g ∈ issued, g.token < t.nextToken
  told : ∀ n ∈ t.signalled, n < t.nextToken
  apart : ∀ g ∈ issued, ∀ h ∈ issued, g.token = h.token → g = h
  known : ∀ h ∈ t.holders, h.guard ∈ issued
  live : ∀ g ∈ issued, g.token ∉ t.signalled ↔ t.Seats g

@[simp] theorem isCancelled_iff (t : Table) (n : Nat) :
    t.isCancelled n = true ↔ n ∈ t.signalled := by
  simp [isCancelled]

theorem holder?_eq_some {t : Table} {key : String} {h : Holder} (found : t.holder? key = some h) :
    h ∈ t.holders ∧ h.key = key := by
  have same := List.find?_some found
  exact ⟨List.mem_of_find?_eq_some found, by simpa using same⟩

/-- A table gives out a guard under the next token, or only passes the token over: because the lock
is held, or because the clock does not come to the deadline. -/
theorem take_cases (t : Table) (key : String) (now : Nat) (validity : Span) :
    ((t.take key now validity).result = .ok ⟨key, t.nextToken⟩ ∧
      (t.take key now validity).state =
        { t with nextToken := t.nextToken + 1 }.install
          ⟨key, t.nextToken, now + validity.nanos⟩ ∧
      now + validity.nanos ≤ Clock.last) ∨
      (t.take key now validity).state = { t with nextToken := t.nextToken + 1 } ∧
        ((t.take key now validity).result = .error .notLocked ∧
            now + validity.nanos ≤ Clock.last ∨
          (t.take key now validity).result = .error (.panicked Clock.overflow) ∧
            Clock.last < now + validity.nanos) := by
  simp only [take]
  cases reckoned : Clock.after? now validity with
  | none => exact .inr ⟨rfl, .inr ⟨rfl, Clock.after?_eq_none_iff.mp reckoned⟩⟩
  | some deadline =>
      obtain ⟨early, rfl⟩ := Clock.after?_eq_some_iff.mp reckoned
      generalize holder? _ key = found
      cases found with
      | none => exact .inl ⟨rfl, rfl, early⟩
      | some h =>
          by_cases live : now < h.deadline
          · right
            dsimp only
            rw [if_pos live]
            exact ⟨rfl, .inl ⟨rfl, early⟩⟩
          · left
            dsimp only
            rw [if_neg live]
            exact ⟨rfl, rfl, early⟩

namespace Consistent

variable {t : Table} {issued : List Guard}

theorem empty : Consistent .empty [] := by
  refine ⟨List.nodup_nil, ?_, ?_, ?_, ?_, ?_⟩
  · intro g hg
    cases hg
  · intro n hn
    cases hn
  · intro g hg
    cases hg
  · intro h hh
    cases hh
  · intro g hg
    cases hg

theorem holder_unique (c : Consistent t issued) {a b : Holder} (ha : a ∈ t.holders)
    (hb : b ∈ t.holders) (same : a.key = b.key) : a = b :=
  List.inj_on_of_nodup_map c.keys ha hb same

theorem holder_unique_of_token (c : Consistent t issued) {a b : Holder} (ha : a ∈ t.holders)
    (hb : b ∈ t.holders) (same : a.token = b.token) : a = b := by
  have guards := c.apart a.guard (c.known a ha) b.guard (c.known b hb) same
  exact c.holder_unique ha hb (congrArg Guard.key guards)

theorem unseat (c : Consistent t issued) (p : Holder → Bool) (signals : List Nat)
    (same : ∀ n, n ∈ signals ↔ ∃ h ∈ t.holders, p h = true ∧ h.token = n) :
    Consistent
      { t with holders := t.holders.filter fun h => !p h, signalled := signals ++ t.signalled }
      issued := by
  refine ⟨?_, c.fresh, ?_, c.apart, ?_, ?_⟩
  · exact c.keys.sublist (List.filter_sublist.map _)
  · intro n hn
    obtain new | old := List.mem_append.mp hn
    · obtain ⟨h, hh, -, rfl⟩ := (same n).mp new
      exact c.fresh h.guard (c.known h hh)
    · exact c.told n old
  · intro h hh
    exact c.known h (List.mem_filter.mp hh).1
  · intro g hg
    constructor
    · intro going
      rw [List.mem_append, not_or] at going
      obtain ⟨h, hh, rfl⟩ := (c.live g hg).mp going.2
      refine ⟨h, List.mem_filter.mpr ⟨hh, ?_⟩, rfl⟩
      cases hp : p h with
      | false => rfl
      | true => exact absurd ((same h.token).mpr ⟨h, hh, hp, rfl⟩) going.1
    · rintro ⟨h, hh, rfl⟩ gone
      obtain ⟨member, stays⟩ := List.mem_filter.mp hh
      obtain new | old := List.mem_append.mp gone
      -- Tokens are not shared, so the signal of another holder is not that of this guard.
      · obtain ⟨other, hOther, hp, hToken⟩ := (same _).mp new
        rw [c.holder_unique_of_token hOther member hToken] at hp
        rw [hp] at stays
        cases stays
      · exact (c.live h.guard hg).mpr ⟨h, member, rfl⟩ old

theorem seat (c : Consistent t issued) {key : String} (vacant : key ∉ t.holders.map Holder.key)
    (deadline : Nat) :
    Consistent
      { t with holders := ⟨key, t.nextToken, deadline⟩ :: t.holders, nextToken := t.nextToken + 1 }
      (⟨key, t.nextToken⟩ :: issued) := by
  have older : ∀ g ∈ issued, g.token ≠ t.nextToken := by
    intro g hg
    exact Nat.ne_of_lt (c.fresh g hg)
  refine ⟨?_, ?_, ?_, ?_, ?_, ?_⟩
  · exact List.nodup_cons.mpr ⟨vacant, c.keys⟩
  · intro g hg
    obtain rfl | old := List.mem_cons.mp hg
    · exact Nat.lt_succ_self _
    · exact Nat.lt_succ_of_lt (c.fresh g old)
  · intro n hn
    exact Nat.lt_succ_of_lt (c.told n hn)
  · intro g hg h hh same
    obtain rfl | oldG := List.mem_cons.mp hg
    · obtain rfl | oldH := List.mem_cons.mp hh
      · rfl
      · exact absurd same.symm (older h oldH)
    · obtain rfl | oldH := List.mem_cons.mp hh
      · exact absurd same (older g oldG)
      · exact c.apart g oldG h oldH same
  · intro h hh
    obtain rfl | old := List.mem_cons.mp hh
    · exact List.mem_cons_self
    · exact List.mem_cons_of_mem _ (c.known h old)
  · intro g hg
    obtain rfl | old := List.mem_cons.mp hg
    · constructor
      · intro _
        exact ⟨_, List.mem_cons_self, rfl⟩
      · intro _ gone
        exact Nat.lt_irrefl _ (c.told _ gone)
    · constructor
      · intro going
        obtain ⟨h, hh, same⟩ := (c.live g old).mp going
        exact ⟨h, List.mem_cons_of_mem _ hh, same⟩
      · rintro ⟨h, hh, same⟩
        obtain rfl | oldH := List.mem_cons.mp hh
        · exact absurd (congrArg Guard.token same).symm (older g old)
        · exact (c.live g old).mpr ⟨h, oldH, same⟩

theorem skip (c : Consistent t issued) :
    Consistent { t with nextToken := t.nextToken + 1 } issued :=
  ⟨c.keys, fun g hg => Nat.lt_succ_of_lt (c.fresh g hg),
    fun n hn => Nat.lt_succ_of_lt (c.told n hn), c.apart, c.known, c.live⟩

theorem install (c : Consistent t issued) (key : String) (deadline : Nat) :
    Consistent ({ t with nextToken := t.nextToken + 1 }.install ⟨key, t.nextToken, deadline⟩)
      (⟨key, t.nextToken⟩ :: issued) := by
  have vacated := c.unseat (fun h => h.key == key)
    ((t.holders.filter fun h => h.key == key).map Holder.token) (by
      intro n
      simp only [List.mem_map, List.mem_filter, and_assoc])
  apply vacated.seat
  intro member
  obtain ⟨h, hh, same⟩ := List.mem_map.mp member
  have other := (List.mem_filter.mp hh).2
  simp [same] at other

theorem take (c : Consistent t issued) (key : String) (now : Nat) (validity : Span) :
    Consistent (t.take key now validity).state
      (match (t.take key now validity).result with
      | .ok g => g :: issued
      | .error _ => issued) := by
  obtain ⟨result, state, -⟩ | ⟨state, ⟨result, -⟩ | ⟨result, -⟩⟩ := t.take_cases key now validity
  · rw [result, state]
    exact c.install key _
  · rw [result, state]
    exact c.skip
  · rw [result, state]
    exact c.skip

theorem release (c : Consistent t issued) {g : Guard} (known : g ∈ issued) :
    Consistent (t.release g).state issued ∧ g.token ∈ (t.release g).state.signalled := by
  have gone : ¬ t.Seats g → g.token ∈ t.signalled := by
    intro unseated
    by_contra going
    exact unseated ((c.live g known).mp going)
  simp only [Table.release]
  cases found : t.holder? g.key with
  | none =>
      refine ⟨c, gone ?_⟩
      rintro ⟨h, hh, rfl⟩
      have absent := List.find?_eq_none.mp found h hh
      simp [Holder.guard] at absent
  | some h =>
      obtain ⟨member, key⟩ := holder?_eq_some found
      by_cases own : h.token = g.token
      · simp only [if_pos own]
        refine ⟨?_, List.mem_cons_self⟩
        apply c.unseat (fun x => x.key == g.key) [g.token]
        intro n
        constructor
        · intro hn
          exact ⟨h, member, by simpa using key, own.trans (List.mem_singleton.mp hn).symm⟩
        · rintro ⟨x, hx, hKey, rfl⟩
          have same : x.key = h.key := (beq_iff_eq.mp hKey).trans key.symm
          rw [c.holder_unique hx member same, own]
          exact List.mem_singleton_self _
      · simp only [if_neg own]
        refine ⟨c, gone ?_⟩
        rintro ⟨x, hx, rfl⟩
        exact own (congrArg Holder.token (c.holder_unique member hx key))

theorem clear (c : Consistent t issued) : Consistent t.clear issued := by
  have all := c.unseat (fun _ => true) (t.holders.map Holder.token) (by
    intro n
    simp only [List.mem_map, true_and])
  simpa [Table.clear] using all

end Consistent

theorem signalled_take {t : Table} {n : Nat} (key : String) (now : Nat) (validity : Span)
    (given : n ∈ t.signalled) : n ∈ (t.take key now validity).state.signalled := by
  obtain ⟨-, state, -⟩ | ⟨state, -⟩ := t.take_cases key now validity
  · rw [state]
    exact List.mem_append_right _ given
  · rw [state]
    exact given

theorem signalled_release {t : Table} {n : Nat} (g : Guard) (given : n ∈ t.signalled) :
    n ∈ (t.release g).state.signalled := by
  simp only [release]
  cases t.holder? g.key with
  | none => exact given
  | some h =>
      by_cases own : h.token = g.token
      · simp only [if_pos own]
        exact List.mem_cons_of_mem _ given
      · simp only [if_neg own]
        exact given

theorem signalled_clear {t : Table} {n : Nat} (given : n ∈ t.signalled) :
    n ∈ t.clear.signalled :=
  List.mem_append_right _ given

end Table
end Lock
end CacheFacade
