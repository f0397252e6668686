import CacheFacade.Proofs.Remote.Stages
import Mathlib.Data.List.Count

/-!
The replicas that a client counts on: those that its round was told it took, and those of a lease
whose signal was not given. Nothing but the client itself changes what they hold. A client comes to
count on a replica only by writing its token there, and does not let it go while it counts on it.
-/

namespace CacheFacade
namespace Remote

variable {q : Quorum} {key : String}

/-- The replicas that a client counts on. -/
def Client.Counts (signalled : List String) : Client → String → Prop
  | .idle, _ => False
  | .trying a x, r => x.Took a.token r
  | .holding g, r => r ∈ g.lease.held
  | .tending g _, r => g.lease.token ∉ signalled ∧ r ∈ g.lease.held

theorem Client.counts_of_grant? {c : Client} {g : Grant} {signalled : List String} {r : String}
    (has : c.grant? = some g) (going : g.lease.token ∉ signalled) (held : r ∈ g.lease.held) :
    c.Counts signalled r := by
  cases c with
  | idle | trying _ _ => cases has
  | holding _ =>
      cases has
      exact held
  | tending _ _ =>
      cases has
      exact ⟨going, held⟩

/-- What a step leaves of a replica that a client counts on in a round. It was written in this very
step, or the client counted on it before and no term of its token was cut short. -/
def Kept (s s' : Contest) (i : Nat) (a : Attempt) (r : String) : Prop :=
  s'.registry.tenures r = some (s'.registry.grant a.token (milliseconds a.validity)) ∨
    ((s.clients i).attempt? = some a ∧ (s.clients i).Counts s.signalled r ∧
      ∀ d, s.registry.tenures r = some ⟨a.token, d⟩ → s.registry.now < d →
        s'.registry.tenures r = some ⟨a.token, d⟩)

theorem kept_of_tenures {s s' : Contest} {i : Nat} {a : Attempt} {r : String}
    (same : s'.registry.tenures = s.registry.tenures) (has : (s.clients i).attempt? = some a)
    (counts : (s.clients i).Counts s.signalled r) : Kept s s' i a r := by
  refine .inr ⟨has, counts, ?_⟩
  intro d held _
  rw [same, held]

/-- The step of one client changes neither the round of another nor what it counts on. -/
theorem counts_of_advance {s : Contest} {i j : Nat} {signals : List String} {c : Client}
    {a : Attempt} {r : String} (apart : i ≠ j)
    (has : ((s.advance j signals c).clients i).attempt? = some a)
    (counts : ((s.advance j signals c).clients i).Counts (s.advance j signals c).signalled r) :
    (s.clients i).attempt? = some a ∧ (s.clients i).Counts s.signalled r := by
  rw [advance_clients_of_ne _ _ _ apart] at has counts
  refine ⟨has, ?_⟩
  generalize s.clients i = client at counts
  cases client with
  | idle | trying _ _ | holding _ => exact counts
  | tending g x => exact ⟨fun told => counts.1 (List.mem_append_right _ told), counts.2⟩

theorem Orderly.tenures_meet_of_other {s : Contest} (h : Orderly q key s) {i j n : Nat}
    {c : Command} {t : String} (f : Fate) (has : (s.clients i).token? = some t)
    (errand : (s.clients j).errands[n]? = some (.pending c)) (apart : i ≠ j) {r : String} {d : Nat}
    (held : s.registry.tenures r = some ⟨t, d⟩) (live : s.registry.now < d) :
    (s.registry.meet c f).2.tenures r = some ⟨t, d⟩ := by
  have foreign := h.foreign has errand apart
  have kept : c ≠ .release r t := by
    rintro rfl
    exact foreign rfl
  obtain same | ⟨ttl, rfl, -⟩ := Registry.tenures_meet_of_kept f held live kept
  · exact same
  · exact absurd rfl foreign

theorem Orderly.counts_note {s : Contest} (h : Orderly q key s) {i n : Nat} {c : Command}
    {a : Attempt} {r : String} (f : Fate) (has : (s.clients i).attempt? = some a)
    (errand : (s.clients i).errands[n]? = some (.pending c))
    (counts : ((s.clients i).note n (s.registry.meet c f).1).Counts s.signalled r) :
    (s.registry.meet c f).2.tenures r =
        some (s.registry.grant a.token (milliseconds a.validity)) ∨
      ((s.clients i).Counts s.signalled r ∧ c ≠ .release r a.token ∧
        ∀ ttl, c = .extend r a.token ttl → ttl = milliseconds a.validity) := by
  have stage := h.stage i
  generalize s.clients i = client at stage has errand counts ⊢
  cases stage with
  | idle => cases has
  | holding _ _ => cases errand
  | @acquiring a x going sent rest =>
      cases has
      have sentIt : c ∈ x.commands :=
        List.mem_map_of_mem (f := Errand.command) (List.mem_of_getElem? errand)
      rw [sent] at sentIt
      obtain ⟨r', -, rfl⟩ := List.mem_map.mp sentIt
      obtain ⟨⟨ttl, same⟩, taken⟩ | old := (took_note errand).mp counts
      · cases same
        exact .inl (Registry.tenures_meet_of_taken taken)
      · refine .inr ⟨old, ?_, ?_⟩
        · intro same
          cases same
        · intro ttl same
          cases same
  | @yielding a x taken going sent rest =>
      have none := not_took_of_release (x := x.note n (s.registry.meet c f).1) (r := r)
        (by rw [Exchange.commands_note, sent])
      exact absurd counts none
  | @renewing g x going sound sent rest =>
      cases has
      have sentIt : c ∈ x.commands :=
        List.mem_map_of_mem (f := Errand.command) (List.mem_of_getElem? errand)
      rw [sent] at sentIt
      obtain ⟨r', -, rfl⟩ := List.mem_map.mp sentIt
      refine .inr ⟨counts, ?_, ?_⟩
      · intro same
        cases same
      · intro ttl same
        cases same
        rfl
  | @ending g x given sound sent rest => exact absurd given counts.1

/-- All that a step can do to a replica that a client counts on after it. -/
theorem Orderly.kept_step {s s' : Contest} {m : Move} (h : Orderly q key s)
    (step : Turn q key s m s') {i : Nat} {a : Attempt} {r : String}
    (has : (s'.clients i).attempt? = some a) (counts : (s'.clients i).Counts s'.signalled r) :
    Kept s s' i a r := by
  cases step with
  | pass d => exact kept_of_tenures rfl has counts
  | @tryLock j validity token signals act idle fresh run =>
      by_cases hj : i = j
      · subst hj
        rw [advance_clients_self] at counts
        obtain ⟨x, hx, hErrands, -⟩ :=
          settle_tryLock (q.lasting validity) key token s.registry.now
        rw [run] at hx
        cases hx
        exact absurd counts (not_took_of_pending hErrands)
      · obtain ⟨had, counted⟩ := counts_of_advance hj has counts
        exact kept_of_tenures rfl had counted
  | @serve j n c f errand =>
      by_cases hj : i = j
      · subst hj
        rw [advance_clients_self] at counts has
        rw [Client.attempt?_note] at has
        obtain written | ⟨counted, kept, renewal⟩ := h.counts_note f has errand counts
        · left
          change (s.registry.meet c f).2.tenures r = some ((s.registry.meet c f).2.grant _ _)
          rw [Registry.grant_meet, written]
        -- Only a renewal of its own lease changes a live term of its token.
        · by_cases extended : ∃ d, s.registry.tenures r = some ⟨a.token, d⟩ ∧
              s.registry.now < d ∧ (s.registry.meet c f).2.tenures r ≠ some ⟨a.token, d⟩
          · obtain ⟨d, held, live, changed⟩ := extended
            obtain same | ⟨ttl, hc, written⟩ := Registry.tenures_meet_of_kept f held live kept
            · exact absurd same changed
            · left
              change (s.registry.meet c f).2.tenures r =
                some ((s.registry.meet c f).2.grant _ _)
              rw [Registry.grant_meet, written, renewal ttl hc]
          · push Not at extended
            exact .inr ⟨has, counted, extended⟩
      · obtain ⟨had, counted⟩ := counts_of_advance hj has counts
        refine .inr ⟨had, counted, ?_⟩
        intro d held live
        exact h.tenures_meet_of_other f (Client.token?_of_attempt? had) errand hj held live
  | @resumeRound j a' x os signals act stand answered run =>
      by_cases hj : i = j
      · subst hj
        rw [advance_clients_self] at counts has
        have stage := stand ▸ h.stage i
        obtain ⟨rfl, ⟨held, rfl, -, -, -, hTook⟩ | ⟨y, taken, rfl, hSent, -⟩ | ⟨f, rfl⟩⟩ :=
          stage.resume_round answered run
        · refine kept_of_tenures rfl ?_ ?_
          · rw [stand]
            exact has
          · rw [stand]
            exact hTook r counts
        · exact absurd counts (not_took_of_release hSent)
        · cases has
      · obtain ⟨had, counted⟩ := counts_of_advance hj has counts
        exact kept_of_tenures rfl had counted
  | @resumeLease j g x os signals act stand answered run =>
      by_cases hj : i = j
      · subst hj
        rw [advance_clients_self] at counts has
        have own := Client.attempt?_ofReaction has
        have stage := stand ▸ h.stage i
        refine kept_of_tenures rfl ?_ ?_
        · rw [stand]
          exact congrArg some own
        · rw [stand]
          obtain ⟨rfl, rfl, going, -⟩ | ⟨y, rfl, -, rfl, -, -⟩ | ⟨rfl, rfl, -⟩ :=
            stage.resume_lease run
          · exact ⟨going, counts⟩
          · exact absurd (List.mem_append_left _ (List.mem_singleton_self _)) counts.1
          · cases has
      · obtain ⟨had, counted⟩ := counts_of_advance hj has counts
        exact kept_of_tenures rfl had counted
  | @prompt j g p signals act stand run =>
      by_cases hj : i = j
      · subst hj
        rw [advance_clients_self] at counts has
        have own := Client.attempt?_ofReaction has
        refine kept_of_tenures rfl ?_ ?_
        · rw [stand]
          exact congrArg some own
        · rw [stand]
          obtain ⟨-, rfl, x, rfl, -, -⟩ | ⟨-, rfl, x, rfl, -, -⟩ := settle_prompt run
          · exact counts.2
          · exact absurd (List.mem_append_left _ (List.mem_singleton_self _)) counts.1
      · obtain ⟨had, counted⟩ := counts_of_advance hj has counts
        exact kept_of_tenures rfl had counted

/-- How many replicas of a lock carry a token. -/
def Contest.carriers (q : Quorum) (key : String) (s : Contest) (token : String) : Nat :=
  (q.replicas key).countP (s.registry.carries · token)

/-- A replica carries one token at a time. -/
theorem carriers_add_le (q : Quorum) (key : String) (s : Contest) {a b : String} (apart : a ≠ b) :
    s.carriers q key a + s.carriers q key b ≤ q.size := by
  have disjoint : ∀ r ∈ q.replicas key, s.registry.carries r b = true →
      ¬ s.registry.carries r a = true := by
    intro r _ hb ha
    exact apart (Registry.carries_unique ha hb)
  have length : (q.replicas key).length = q.size := by
    simp [Quorum.replicas]
  have split := List.length_eq_countP_add_countP (s.registry.carries · a) (l := q.replicas key)
  have inOther : s.carriers q key b ≤
      (q.replicas key).countP fun r => ¬ s.registry.carries r a = true := by
    apply List.countP_mono_left
    intro r hr hb
    exact decide_eq_true (disjoint r hr hb)
  rw [length] at split
  simp only [Contest.carriers] at inOther ⊢
  omega

theorem carriers_unique (s : Contest) (positive : 1 ≤ q.majority) {a b : String}
    (ha : q.majority ≤ s.carriers q key a) (hb : q.majority ≤ s.carriers q key b) : a = b := by
  by_contra apart
  have total := carriers_add_le q key s apart
  simp only [Quorum.size] at total
  omega

/-- A lease is carried by a majority if each of its replicas carries its token. -/
theorem Grant.Sound.majority_le {g : Grant} (sound : g.Sound q key) {s : Contest}
    (carried : ∀ r ∈ g.lease.held, s.registry.carries r g.lease.token = true) :
    q.majority ≤ s.carriers q key g.lease.token := by
  have all : g.lease.held.countP (s.registry.carries · g.lease.token) = g.lease.held.length :=
    List.countP_eq_length.mpr carried
  calc
    q.majority ≤ g.lease.held.length := sound.enough
    _ = g.lease.held.countP (s.registry.carries · g.lease.token) := all.symm
    _ ≤ s.carriers q key g.lease.token := sound.held.countP_le

end Remote
end CacheFacade
