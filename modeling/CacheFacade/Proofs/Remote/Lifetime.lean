import CacheFacade.Proofs.Remote.Counting
import Mathlib.Algebra.Group.Nat.Defs

/-!
How long a replica carries a token. What a round takes is carried until a lifetime after the round
began at least, however long the answers were on their way, and a renewal begins another lifetime.
-/

namespace CacheFacade
namespace Remote

variable {q : Quorum} {key : String}

/-- The time that a replica holds a token, in nanoseconds. A server counts whole milliseconds. -/
def lifetime (validity : Span) : Nat := milliseconds validity * Span.perMilli

/-- What a round takes is not vacant before this instant. -/
def Attempt.expiry (a : Attempt) : Nat := a.begun + lifetime a.validity

theorem milliseconds_pos (d : Span) : 1 ≤ milliseconds d := Nat.le_max_left ..

theorem lifetime_pos (d : Span) : 0 < lifetime d :=
  Nat.mul_pos (milliseconds_pos d) (by decide)

namespace Registry

/-- The key holds the token, until the instant `d` at least. -/
def Lasts (r : Registry) (key token : String) (d : Nat) : Prop :=
  ∃ e, r.tenures key = some ⟨token, e⟩ ∧ d ≤ e

theorem Lasts.carries {r : Registry} {key token : String} {d : Nat} (h : r.Lasts key token d)
    (live : r.now < d) : r.carries key token = true := by
  obtain ⟨e, held, later⟩ := h
  exact (carries_iff r key token).mpr ⟨e, held, Nat.lt_of_lt_of_le live later⟩

theorem Lasts.mono {r : Registry} {key token : String} {c d : Nat} (h : r.Lasts key token d)
    (le : c ≤ d) : r.Lasts key token c := by
  obtain ⟨e, held, later⟩ := h
  exact ⟨e, held, Nat.le_trans le later⟩

theorem lasts_of_grant {r : Registry} {key token : String} {d : Span}
    (written : r.tenures key = some (r.grant token (milliseconds d))) :
    r.Lasts key token (r.now + lifetime d) :=
  ⟨_, written, Nat.le_refl _⟩

theorem carries_of_grant {r : Registry} {key token : String} {d : Span}
    (written : r.tenures key = some (r.grant token (milliseconds d))) :
    r.carries key token = true :=
  (lasts_of_grant written).carries (Nat.lt_add_of_pos_right (lifetime_pos d))

end Registry

theorem Orderly.attempt_step {s s' : Contest} {m : Move} (h : Orderly q key s)
    (step : Turn q key s m s') {i : Nat} {a : Attempt} (has : (s'.clients i).attempt? = some a) :
    (s.clients i).attempt? = some a ∨ a.begun = s.registry.now := by
  have other : ∀ {clients : Nat → Client} {j : Nat} {c : Client}, i ≠ j →
      (Function.update clients j c i).attempt? = some a → (clients i).attempt? = some a := by
    intro clients j c apart has
    rwa [Function.update_of_ne apart] at has
  cases step with
  | pass d => exact .inl has
  | @tryLock j validity token signals act idle fresh run =>
      by_cases hj : i = j
      · subst hj
        rw [advance_clients_self] at has
        obtain ⟨x, hx, -, -⟩ := settle_tryLock (q.lasting validity) key token s.registry.now
        rw [run] at hx
        cases hx
        cases has
        exact .inr rfl
      · exact .inl (other hj has)
  | @serve j n c f errand =>
      by_cases hj : i = j
      · subst hj
        rw [advance_clients_self, Client.attempt?_note] at has
        exact .inl has
      · exact .inl (other hj has)
  | @resumeRound j b x os signals act stand answered run =>
      by_cases hj : i = j
      · subst hj
        rw [advance_clients_self] at has
        rw [stand]
        obtain ⟨-, ⟨held, rfl, -⟩ | ⟨y, taken, rfl, -⟩ | ⟨f, rfl⟩⟩ :=
          (stand ▸ h.stage i).resume_round answered run
        · exact .inl has
        · exact .inl has
        · cases has
      · exact .inl (other hj has)
  | @resumeLease j g x os signals act stand answered run =>
      by_cases hj : i = j
      · subst hj
        rw [advance_clients_self] at has
        rw [stand]
        exact .inl (congrArg some (Client.attempt?_ofReaction has))
      · exact .inl (other hj has)
  | @prompt j g p signals act stand run =>
      by_cases hj : i = j
      · subst hj
        rw [advance_clients_self] at has
        rw [stand]
        exact .inl (congrArg some (Client.attempt?_ofReaction has))
      · exact .inl (other hj has)

/-- What a client counts on has not run out before the expiry of its round. -/
structure Contest.Durable (s : Contest) : Prop where
  begun : ∀ i a, (s.clients i).attempt? = some a → a.begun ≤ s.registry.now
  lasts : ∀ i a r, (s.clients i).attempt? = some a → (s.clients i).Counts s.signalled r →
    s.registry.now < a.expiry → s.registry.Lasts r a.token a.expiry

namespace Contest.Durable

theorem step {s s' : Contest} {m : Move} (h : s.Durable) (orderly : Orderly q key s)
    (step : Turn q key s m s') : s'.Durable := by
  have later : s.registry.now ≤ s'.registry.now := by
    rw [step.now]
    exact Nat.le_add_right _ _
  have begun : ∀ i a, (s'.clients i).attempt? = some a → a.begun ≤ s'.registry.now := by
    intro i a has
    obtain had | now := orderly.attempt_step step has
    · exact Nat.le_trans (h.begun i a had) later
    · rw [now]
      exact later
  refine ⟨begun, ?_⟩
  intro i a r has counts soon
  obtain written | ⟨had, counted, stays⟩ := orderly.kept_step step has counts
  -- A term that begins now ends no earlier than one that began with the round.
  · apply (Registry.lasts_of_grant written).mono
    exact Nat.add_le_add_right (begun i a has) _
  · have before := Nat.lt_of_le_of_lt later soon
    obtain ⟨d, held, hd⟩ := h.lasts i a r had counted before
    exact ⟨d, stays d held (Nat.lt_of_lt_of_le before hd), hd⟩

theorem of_reach {allowed : Contest → Move → Prop} {s : Contest} (reach : Reach q key allowed s) :
    s.Durable := by
  induction reach with
  | start =>
      refine ⟨?_, ?_⟩
      · intro i a has
        cases has
      · intro i a r has
        cases has
  | step before _ next ih => exact ih.step (.of_reach before) next

theorem majority_le {s : Contest} (h : s.Durable) (orderly : Orderly q key s) {i : Nat} {g : Grant}
    (has : (s.clients i).grant? = some g) (going : g.lease.token ∉ s.signalled)
    (soon : s.registry.now < g.attempt.expiry) :
    q.majority ≤ s.carriers q key g.lease.token := by
  apply ((orderly.stage i).sound has).majority_le
  intro r hr
  have counts := Client.counts_of_grant? has going hr
  exact (h.lasts i g.attempt r (Client.attempt?_of_grant? has) counts soon).carries soon

end Contest.Durable
end Remote
end CacheFacade
