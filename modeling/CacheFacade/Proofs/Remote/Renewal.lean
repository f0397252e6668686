import CacheFacade.Proofs.Remote.Lifetime
import CacheFacade.Proofs.Remote.Undisturbed

/-!
Whether the renewals of a lease come in time. The first one is a period after the round ended, and
what the round took may run out a lifetime after the round began; the time that the round itself
took is not taken off the period. So the owner keeps its majority in every healthy run just when the
time of the round and the period together are less than the lifetime.
-/

namespace CacheFacade
namespace Remote

variable {q : Quorum} {key token : String}

/-- The time from one renewal of a lease to the next, in nanoseconds. -/
def renewal (validity : Span) : Nat := max validity.half.nanos Span.perMilli

theorem renewal_pos (validity : Span) : 0 < renewal validity :=
  Nat.lt_of_lt_of_le (by decide) (Nat.le_max_right ..)

theorem Lease.period_nanos (l : Lease) : l.period.nanos = renewal l.validity := rfl

/-- The renewal after a round of this length comes before the expiry of the round. -/
def Timely (validity : Span) (elapsed : Nat) : Prop :=
  elapsed + renewal validity < lifetime validity

instance (validity : Span) (elapsed : Nat) : Decidable (Timely validity elapsed) :=
  inferInstanceAs (Decidable (_ < _))

def Grant.elapsed (g : Grant) : Nat := g.granted - g.begun

/-- Once its lock is taken, a token is served well: its renewals begin when they are due, and every
command of a renewal is answered at once. Nothing is asked for the other tokens. -/
def Healthy (token : String) (s : Contest) : Move → Prop
  | .pass d =>
    (∀ i g, s.clients i = .holding g → g.lease.token = token → s.registry.now + d ≤ g.due) ∧
      ∀ i g x, s.clients i = .tending g x → g.lease.token = token → token ∉ s.signalled → d = 0
  | .serve i _ f =>
    ∀ g x, s.clients i = .tending g x → g.lease.token = token → token ∉ s.signalled → f = .answered
  | .prompt i .due => ∀ g, s.clients i = .holding g → g.lease.token = token → g.due ≤ s.registry.now
  | _ => True

/-- The command of a renewal for the replica came to its fate. -/
def Exchange.Extended (x : Exchange Bool) (replica : String) : Prop :=
  ∃ e ∈ x.errands, (∃ t ttl, e.command = .extend replica t ttl) ∧ e.outcome ≠ none

theorem not_extended_of_pending {x : Exchange Bool} {cs : List Command} {r : String}
    (h : x.errands = cs.map .pending) : ¬ x.Extended r := by
  rintro ⟨e, hMember, -, hOutcome⟩
  exact hOutcome (Exchange.outcome_of_pending h hMember)

theorem extended_note {x : Exchange Bool} {n : Nat} {c : Command} {o : Outcome} {r : String}
    (errand : x.errands[n]? = some (.pending c)) :
    (x.note n o).Extended r ↔ (∃ t ttl, c = .extend r t ttl) ∨ x.Extended r := by
  refine (Exchange.exists_note_iff errand ?_).trans (or_congr_left ?_)
  · rintro ⟨-, told⟩
    exact told rfl
  · simp

theorem extended_of_answered {x : Exchange Bool} {os : List Outcome} {held : List String}
    {t r : String} {ttl : Nat} (sent : x.commands = held.map (.extend · t ttl))
    (answered : x.Answered os) (member : r ∈ held) : x.Extended r := by
  have sentIt : Command.extend r t ttl ∈ x.commands := by
    rw [sent]
    exact List.mem_map_of_mem member
  obtain ⟨e, hMember, hCommand⟩ := List.mem_map.mp sentIt
  obtain ⟨o, told⟩ := answered.exists_outcome hMember
  exact ⟨e, hMember, ⟨t, ttl, hCommand⟩, told ▸ Option.some_ne_none o⟩

/-- What the owner of a lock can rely on: each replica of its lease lasts beyond the next renewal,
and during a renewal, what was extended lasts beyond the one after it. -/
def Client.Secure (r : Registry) : Client → Prop
  | .holding g => r.now ≤ g.due ∧ ∀ k ∈ g.lease.held, r.Lasts k g.lease.token (g.due + 1)
  | .tending g x =>
    r.now = g.due ∧ ∀ k ∈ g.lease.held, r.Lasts k g.lease.token (g.due + 1) ∧
      (x.Extended k → r.Lasts k g.lease.token (g.due + renewal g.lease.validity + 1))
  | _ => True

theorem Client.Secure.lasts {r : Registry} {c : Client} {g : Grant} (h : c.Secure r)
    (has : c.grant? = some g) :
    r.now ≤ g.due ∧ ∀ k ∈ g.lease.held, r.Lasts k g.lease.token (g.due + 1) := by
  cases c with
  | idle | trying _ _ => cases has
  | holding _ =>
      cases has
      exact h
  | tending _ _ =>
      cases has
      exact ⟨Nat.le_of_eq h.1, fun k hk => (h.2 k hk).1⟩

theorem Client.Secure.mono {r r' : Registry} {c : Client} (h : c.Secure r) (now : r'.now = r.now)
    (stays : ∀ g k d, c.grant? = some g → k ∈ g.lease.held → r.now < d →
      r.Lasts k g.lease.token d → r'.Lasts k g.lease.token d) : c.Secure r' := by
  cases c with
  | idle => trivial
  | trying a x => trivial
  | holding g =>
      obtain ⟨soon, lasts⟩ := h
      refine ⟨now ▸ soon, ?_⟩
      intro k hk
      exact stays g k _ rfl hk (by omega) (lasts k hk)
  | tending g x =>
      obtain ⟨soon, lasts⟩ := h
      refine ⟨now ▸ soon, ?_⟩
      intro k hk
      refine ⟨stays g k _ rfl hk (by omega) (lasts k hk).1, ?_⟩
      intro extended
      exact stays g k _ rfl hk (by omega) ((lasts k hk).2 extended)

/-- The owner under a token is secure if the round that took its lock was short enough. -/
def Contest.Watched (token : String) (s : Contest) : Prop :=
  ∀ i g, (s.clients i).grant? = some g → g.lease.token = token → token ∉ s.signalled →
    Timely g.lease.validity g.elapsed → (s.clients i).Secure s.registry

theorem secure_note {s : Contest} {i n : Nat} {g : Grant} {x : Exchange Bool} {c : Command}
    (stand : s.clients i = .tending g x) (secure : (s.clients i).Secure s.registry)
    (sent : x.commands =
      g.lease.held.map (.extend · g.lease.token (milliseconds g.lease.validity)))
    (timely : Timely g.lease.validity g.elapsed) (errand : x.errands[n]? = some (.pending c)) :
    (Client.tending g (x.note n (s.registry.meet c .answered).1)).Secure
      (s.registry.meet c .answered).2 := by
  have sentIt : c ∈ x.commands :=
    List.mem_map_of_mem (f := Errand.command) (List.mem_of_getElem? errand)
  rw [sent] at sentIt
  obtain ⟨r, -, rfl⟩ := List.mem_map.mp sentIt
  rw [stand] at secure
  obtain ⟨soon, lasts⟩ := secure
  refine ⟨by rw [Registry.meet_now, soon], ?_⟩
  intro k hk
  have carried := (lasts k hk).1.carries (by omega)
  have long : renewal g.lease.validity < lifetime g.lease.validity :=
    Nat.lt_of_le_of_lt (Nat.le_add_left _ _) timely
  by_cases same : k = r
  -- The token is still there, so the server agrees and the new term begins now.
  · subst same
    have renewed : (s.registry.meet (.extend k g.lease.token (milliseconds g.lease.validity))
        .answered).2.Lasts k g.lease.token (g.due + renewal g.lease.validity + 1) := by
      refine ⟨s.registry.now + lifetime g.lease.validity, ?_, by omega⟩
      simp only [Registry.meet, Registry.serve_extend_held carried, Registry.assign_tenures_self]
      rfl
    exact ⟨renewed.mono (by omega), fun _ => renewed⟩
  · have stays : ∀ d, s.registry.now < d → s.registry.Lasts k g.lease.token d →
        (s.registry.meet (.extend r g.lease.token (milliseconds g.lease.validity))
          .answered).2.Lasts k g.lease.token d := by
      rintro d live ⟨e, held, later⟩
      refine ⟨e, ?_, later⟩
      apply Registry.tenures_serve_of_held held (Nat.lt_of_lt_of_le live later)
      · intro ttl eq
        cases eq
        exact same rfl
      · intro eq
        cases eq
    refine ⟨stays _ (by omega) (lasts k hk).1, ?_⟩
    intro extended
    obtain ⟨t, ttl, eq⟩ | old := (extended_note errand).mp extended
    · cases eq
      exact absurd rfl same
    · exact stays _ (by omega) ((lasts k hk).2 old)

theorem secure_of_round {s : Contest} (durable : s.Durable) {i : Nat} {a : Attempt}
    {x : Exchange (Except Fault Lease)} {held : List String} {name : String} {majority : Nat}
    (stand : s.clients i = .trying a x) (took : ∀ r ∈ held, x.Took a.token r)
    (timely : Timely a.validity (s.registry.now - a.begun)) :
    (Client.ofRound s.registry.now a
      (.ended (.ok ⟨name, a.token, held, majority, a.validity⟩))).Secure s.registry := by
  have has : (s.clients i).attempt? = some a := by rw [stand]; rfl
  have begun := durable.begun i a has
  simp only [Timely] at timely
  refine ⟨Nat.le_add_right _ _, ?_⟩
  intro k hk
  have counts : (s.clients i).Counts s.signalled k := by
    rw [stand]
    exact took k hk
  have soon : s.registry.now + renewal a.validity < a.expiry := by
    simp only [Attempt.expiry]
    omega
  have lasts := durable.lasts i a k has counts (Nat.lt_of_le_of_lt (Nat.le_add_right _ _) soon)
  exact lasts.mono soon

theorem secure_pass {s : Contest} {i : Nat} {g : Grant} {d : Nat}
    (secure : (s.clients i).Secure s.registry) (healthy : Healthy token s (.pass d))
    (has : (s.clients i).grant? = some g) (own : g.lease.token = token)
    (going : token ∉ s.signalled) : (s.clients i).Secure (s.registry.pass d) := by
  cases hi : s.clients i with
  | idle => trivial
  | trying a x => trivial
  | holding g' =>
      rw [hi] at has secure
      cases has
      exact ⟨healthy.1 i g hi own, secure.2⟩
  | tending g' x =>
      rw [hi] at has secure
      cases has
      have still := healthy.2 i g x hi own going
      subst still
      exact secure

theorem secure_serve {s : Contest} {i n : Nat} {f : Fate} {c : Command} {g : Grant}
    (secure : (s.clients i).grant? = some g → (s.clients i).Secure s.registry)
    (stage : Stage q key s.signalled (s.clients i)) (healthy : Healthy token s (.serve i n f))
    (errand : (s.clients i).errands[n]? = some (.pending c))
    (has : ((s.clients i).note n (s.registry.meet c f).1).grant? = some g)
    (own : g.lease.token = token) (going : token ∉ s.signalled)
    (timely : Timely g.lease.validity g.elapsed) :
    ((s.clients i).note n (s.registry.meet c f).1).Secure (s.registry.meet c f).2 := by
  cases hi : s.clients i with
  | idle => trivial
  | trying a x => trivial
  | holding g' =>
      rw [hi] at errand
      cases errand
  | tending g' x =>
      rw [hi] at has errand stage
      cases has
      cases healthy g x hi own going
      cases stage with
      | renewing _ _ sent _ =>
          exact secure_note hi (secure (by rw [hi]; rfl)) sent timely errand
      | ending given _ _ _ => exact absurd (own ▸ given) going

theorem secure_resume {r : Registry} {signalled signals : List String} {g g' : Grant}
    {x : Exchange Bool} {os : List Outcome} {now : Nat} {t : String} {act : Activity Bool}
    (secure : g'.lease.token = token → token ∉ signalled → Timely g'.lease.validity g'.elapsed →
      (Client.tending g' x).Secure r) (stage : Stage q key signalled (.tending g' x))
    (answered : x.Answered os) (run : (x.next os).settle now t = (signals, act))
    (has : (Client.ofReaction g' act).grant? = some g) (own : g.lease.token = token)
    (going : token ∉ signals ++ signalled) (timely : Timely g.lease.validity g.elapsed) :
    (Client.ofReaction g' act).Secure r := by
  obtain ⟨rfl, rfl, unsignalled, -⟩ | ⟨y, rfl, -, rfl, -, -⟩ | ⟨rfl, rfl, -⟩ :=
    stage.resume_lease run
  · cases has
    obtain ⟨now, lasts⟩ := secure own going timely
    refine ⟨by rw [Lease.period_nanos, now]; exact Nat.le_add_right _ _, ?_⟩
    intro k hk
    cases stage with
    | renewing _ _ sent _ => exact (lasts k hk).2 (extended_of_answered sent answered hk)
    | ending given _ _ _ => exact absurd given unsignalled
  · cases has
    exact absurd (List.mem_append_left _ (List.mem_singleton.mpr own.symm)) going
  · cases has

theorem Contest.Watched.step {s s' : Contest} {m : Move} (h : s.Watched token)
    (orderly : Orderly q key s) (durable : s.Durable) (healthy : Healthy token s m)
    (step : Turn q key s m s') : s'.Watched token := by
  intro i g has own going timely
  have other : ∀ {j : Nat} {signals : List String} {c : Client}, i ≠ j →
      (Function.update s.clients j c i).grant? = some g → token ∉ signals ++ s.signalled →
      (s.clients i).grant? = some g ∧ (s.clients i).Secure s.registry := by
    intro j signals c apart has going
    rw [Function.update_of_ne apart] at has
    exact ⟨has, h i g has own (fun told => going (List.mem_append_right _ told)) timely⟩
  cases step with
  | pass d => exact secure_pass (h i g has own going timely) healthy has own going
  | @tryLock j validity t signals act idle fresh run =>
      by_cases hj : i = j
      · subst hj
        rw [advance_clients_self] at has
        obtain ⟨x, hx, -, -⟩ := settle_tryLock (q.lasting validity) key t s.registry.now
        rw [run] at hx
        cases hx
        cases has
      · rw [advance_clients_of_ne _ _ _ hj]
        exact (other hj has going).2
  | @serve j n c f errand =>
      by_cases hj : i = j
      · subst hj
        rw [advance_clients_self] at has ⊢
        exact secure_serve (fun had => h i g had own going timely) (orderly.stage i) healthy errand has
          own going timely
      · obtain ⟨had, secure⟩ := other hj has going
        rw [advance_clients_of_ne _ _ _ hj]
        apply secure.mono (Registry.meet_now _ _ f)
        rintro g' k d has' hk live ⟨e, held, later⟩
        have token? := Client.token?_of_attempt? (Client.attempt?_of_grant? has')
        exact ⟨e, orderly.tenures_meet_of_other f token? errand hj held (by omega), later⟩
  | @resumeRound j a x os signals act stand answered run =>
      by_cases hj : i = j
      · subst hj
        rw [advance_clients_self] at has ⊢
        obtain ⟨-, ⟨held, rfl, -, -, -, hTook⟩ | ⟨y, taken, rfl, -, -⟩ | ⟨f, rfl⟩⟩ :=
          (stand ▸ orderly.stage i).resume_round answered run
        · cases has
          exact secure_of_round durable stand hTook timely
        · cases has
        · cases has
      · rw [advance_clients_of_ne _ _ _ hj]
        exact (other hj has going).2
  | @resumeLease j g' x os signals act stand answered run =>
      by_cases hj : i = j
      · subst hj
        rw [advance_clients_self] at has ⊢
        have secure := h i g' (by rw [stand]; rfl)
        rw [stand] at secure
        exact secure_resume secure (stand ▸ orderly.stage i) answered run has own going timely
      · rw [advance_clients_of_ne _ _ _ hj]
        exact (other hj has going).2
  | @prompt j g' p signals act stand run =>
      by_cases hj : i = j
      · subst hj
        rw [advance_clients_self] at has ⊢
        obtain ⟨rfl, rfl, x, rfl, hErrands, -⟩ | ⟨rfl, rfl, x, rfl, -, -⟩ := settle_prompt run
        · cases has
          have due := healthy g stand own
          have secure := h i g (by rw [stand]; rfl) own going timely
          rw [stand] at secure
          refine ⟨Nat.le_antisymm secure.1 due, ?_⟩
          intro k hk
          exact ⟨secure.2 k hk, fun extended => absurd extended (not_extended_of_pending hErrands)⟩
        · cases has
          exact absurd (List.mem_append_left _ (List.mem_singleton.mpr own.symm)) going
      · rw [advance_clients_of_ne _ _ _ hj]
        exact (other hj has going).2

theorem Contest.Watched.of_reach {s : Contest} (reach : Reach q key (Healthy token) s) :
    s.Watched token := by
  induction reach with
  | start =>
      intro i g has
      cases has
  | step before healthy next ih =>
      exact ih.step (.of_reach before) (.of_reach before) healthy next

end Remote
end CacheFacade
