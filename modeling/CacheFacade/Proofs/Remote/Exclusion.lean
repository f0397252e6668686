import CacheFacade.Proofs.Remote.Lifetime
import CacheFacade.Proofs.Remote.Undisturbed

/-!
One owner at a time, as long as no replica runs out. Every replica that a client counts on then
carries its token, and two majorities of an odd number of replicas have one in common.
-/

namespace CacheFacade
namespace Remote

variable {q : Quorum} {key : String}

/-- No replica that holds a token is given so much time that its tenure is over. -/
def Unexpired (s : Contest) (m : Move) : Prop :=
  ∀ r t, s.registry.tenure? r = some t → s.registry.now + m.duration < t.deadline

theorem unexpired_of_duration {s : Contest} {m : Move} (h : m.duration = 0) : Unexpired s m := by
  intro r t held
  have live := ((Registry.tenure?_eq_some _ r t).mp held).2
  rw [h]
  exact live

/-- The client took the lock and has not begun to give it back. -/
def Contest.Owns (s : Contest) (i : Nat) : Prop :=
  ∃ g, (s.clients i).grant? = some g ∧ g.lease.token ∉ s.signalled

/-- Every replica that a client counts on carries its token. -/
def Contest.Carried (s : Contest) : Prop :=
  ∀ i a r, (s.clients i).attempt? = some a → (s.clients i).Counts s.signalled r →
    s.registry.carries r a.token = true

theorem Contest.Carried.step {s s' : Contest} {m : Move} (h : s.Carried) (orderly : Orderly q key s)
    (unexpired : Unexpired s m) (step : Turn q key s m s') : s'.Carried := by
  intro i a r has counts
  obtain written | ⟨had, counted, stays⟩ := orderly.kept_step step has counts
  · exact Registry.carries_of_grant written
  · obtain ⟨d, held, live⟩ := (Registry.carries_iff _ r a.token).mp (h i a r had counted)
    apply (Registry.carries_iff _ r a.token).mpr
    refine ⟨d, stays d held live, ?_⟩
    rw [step.now]
    exact unexpired r ⟨a.token, d⟩ ((Registry.tenure?_eq_some _ r _).mpr ⟨held, live⟩)

theorem Contest.Carried.of_reach {s : Contest} (reach : Reach q key Unexpired s) : s.Carried := by
  induction reach with
  | start =>
      intro i a r has
      cases has
  | step before unexpired next ih => exact ih.step (.of_reach before) unexpired next

theorem Contest.Carried.majority_le {s : Contest} (h : s.Carried) (orderly : Orderly q key s)
    {i : Nat} {g : Grant} (has : (s.clients i).grant? = some g)
    (going : g.lease.token ∉ s.signalled) : q.majority ≤ s.carriers q key g.lease.token := by
  apply ((orderly.stage i).sound has).majority_le
  intro r hr
  exact h i g.attempt r (Client.attempt?_of_grant? has) (Client.counts_of_grant? has going hr)

theorem Orderly.tenure?_serve {s s' : Contest} (orderly : Orderly q key s) {i n : Nat} {f : Fate}
    (step : Turn q key s (.serve i n f) s') {r : String} {t : Tenure}
    (held : s.registry.tenure? r = some t) (foreign : (s.clients i).token? ≠ some t.token) :
    s'.registry.tenure? r = some t := by
  obtain ⟨hHeld, hLive⟩ := (Registry.tenure?_eq_some _ r t).mp held
  have now := step.now
  apply (Registry.tenure?_eq_some _ r t).mpr
  rw [now]
  refine ⟨?_, hLive⟩
  cases step with
  | @serve _ _ c _ errand =>
      have own := (orderly.stage i).token_of_errand (List.mem_of_getElem? errand)
      rw [← own] at foreign
      have kept : c ≠ .release r t.token := by
        rintro rfl
        exact foreign rfl
      obtain same | ⟨ttl, rfl, -⟩ := Registry.tenures_meet_of_kept f hHeld hLive kept
      · exact same
      · exact absurd rfl foreign

/-- While no replica runs out, a lock has at most one owner, and no command of a client changes or
frees a replica that holds the token of another. -/
theorem one_owner_of_unexpired {s : Contest} (positive : 1 ≤ q.majority)
    (reach : Reach q key Unexpired s) :
    (∀ i j, s.Owns i → s.Owns j → i = j) ∧
      ∀ i n f s', Turn q key s (.serve i n f) s' → ∀ r t, s.registry.tenure? r = some t →
        (s.clients i).token? ≠ some t.token → s'.registry.tenure? r = some t := by
  have orderly : Orderly q key s := .of_reach reach
  have carried := Contest.Carried.of_reach reach
  constructor
  · rintro i j ⟨g, hasG, goingG⟩ ⟨h, hasH, goingH⟩
    have same : g.lease.token = h.lease.token :=
      carriers_unique s positive (carried.majority_le orderly hasG goingG)
        (carried.majority_le orderly hasH goingH)
    have own := Client.token?_of_attempt? (Client.attempt?_of_grant? hasG)
    have other := Client.token?_of_attempt? (Client.attempt?_of_grant? hasH)
    exact orderly.apart i j g.lease.token own (same ▸ other)
  · intro i n f s' step r t held foreign
    exact orderly.tenure?_serve step held foreign

theorem one_owner_of_three_replicas :
    ∃ s, Reach ⟨⟨"app"⟩, 2, .ofSeconds 30⟩ "job" Unexpired s ∧ s.Owns 0 ∧
      (∀ i j, s.Owns i → s.Owns j → i = j) ∧
      ∀ i n f s', Turn ⟨⟨"app"⟩, 2, .ofSeconds 30⟩ "job" s (.serve i n f) s' →
        ∀ r t, s.registry.tenure? r = some t → (s.clients i).token? ≠ some t.token →
          s'.registry.tenure? r = some t := by
  have positive : 1 ≤ (⟨⟨"app"⟩, 2, .ofSeconds 30⟩ : Quorum).majority := by decide
  have may : Permits Unexpired .start 0 (.ofSeconds 30) "token" 0 :=
    ⟨fun _ _ => unexpired_of_duration rfl, fun _ _ _ => unexpired_of_duration rfl,
      fun _ _ _ => unexpired_of_duration rfl, fun _ _ => unexpired_of_duration rfl⟩
  obtain ⟨s, reach, -, hSignalled, -, -, hHolds, -⟩ :=
    Reach.undisturbed .start positive rfl List.not_mem_nil (by decide) (fun _ _ => rfl) may
  refine ⟨s, reach, ⟨_, by rw [hHolds]; rfl, ?_⟩, one_owner_of_unexpired positive reach⟩
  rw [hSignalled]
  exact List.not_mem_nil

end Remote
end CacheFacade
