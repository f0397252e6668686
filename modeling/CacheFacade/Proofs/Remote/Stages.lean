import CacheFacade.Proofs.Remote.Contest

/-!
Where a client of a contest can stand, and what it can do from there. A round asks for every replica
and then holds the lock or lets go what it took; a lease is renewed until it ends, and its signal is
given before it lets go. Every stage works under one token, which no other client has.
-/

namespace CacheFacade
namespace Remote

/-- The replica was asked for under the token, and the server confirmed it. -/
def Exchange.Took {α : Type} (x : Exchange α) (token replica : String) : Prop :=
  ∃ e ∈ x.errands, (∃ ttl, e.command = .acquire replica token ttl) ∧
    ∃ o, e.outcome = some o ∧ Mark.ofOutcome o = .taken

theorem not_took_of_pending {α : Type} {x : Exchange α} {cs : List Command} {token r : String}
    (h : x.errands = cs.map .pending) : ¬ x.Took token r := by
  rintro ⟨e, hMember, -, o, hOutcome, -⟩
  rw [Exchange.outcome_of_pending h hMember] at hOutcome
  cases hOutcome

theorem not_took_of_release {α : Type} {x : Exchange α} {taken : List String} {token r : String}
    (h : x.commands = taken.map (.release · token)) : ¬ x.Took token r := by
  rintro ⟨e, hMember, ⟨ttl, hCommand⟩, -⟩
  have sentIt : e.command ∈ x.commands := List.mem_map_of_mem hMember
  rw [h] at sentIt
  obtain ⟨s, -, hs⟩ := List.mem_map.mp sentIt
  rw [hCommand] at hs
  cases hs

theorem took_note {α : Type} {x : Exchange α} {n : Nat} {c : Command} {o : Outcome}
    {token r : String} (errand : x.errands[n]? = some (.pending c)) :
    (x.note n o).Took token r ↔
      ((∃ ttl, c = .acquire r token ttl) ∧ Mark.ofOutcome o = .taken) ∨ x.Took token r := by
  refine (Exchange.exists_note_iff errand ?_).trans (or_congr_left ?_)
  · rintro ⟨-, o', told, -⟩
    cases told
  · simp

structure Grant.Sound (q : Quorum) (key : String) (g : Grant) : Prop where
  majority : g.lease.majority = q.majority
  held : g.lease.held.Sublist (q.replicas key)
  enough : q.majority ≤ g.lease.held.length

/-- The points of its plans where a client can stand. The signal of a token is given where a lease
ends, and nowhere before. -/
inductive Stage (q : Quorum) (key : String) (signalled : List String) : Client → Prop
  | idle : Stage q key signalled .idle
  | acquiring {a : Attempt} {x : Exchange (Except Fault Lease)} (going : a.token ∉ signalled)
      (sent : x.commands = (q.replicas key).map (.acquire · a.token (milliseconds a.validity)))
      (rest : x.Concludes (q.lasting a.validity) key a.token a.begun) :
      Stage q key signalled (.trying a x)
  | yielding {a : Attempt} {x : Exchange (Except Fault Lease)} {taken : List String}
      (going : a.token ∉ signalled) (sent : x.commands = taken.map (.release · a.token))
      (rest : x.Closes fun r => ∃ f, r = .error f) :
      Stage q key signalled (.trying a x)
  | holding {g : Grant} (going : g.lease.token ∉ signalled) (sound : g.Sound q key) :
      Stage q key signalled (.holding g)
  | renewing {g : Grant} {x : Exchange Bool} (going : g.lease.token ∉ signalled)
      (sound : g.Sound q key)
      (sent : x.commands =
        g.lease.held.map (.extend · g.lease.token (milliseconds g.lease.validity)))
      (rest : x.Decides g.lease) : Stage q key signalled (.tending g x)
  | ending {g : Grant} {x : Exchange Bool} (given : g.lease.token ∈ signalled)
      (sound : g.Sound q key) (sent : x.commands = g.lease.held.map (.release · g.lease.token))
      (rest : x.Closes (· = false)) : Stage q key signalled (.tending g x)

variable {q : Quorum} {key : String} {signalled : List String}

theorem commands_of_pending {α : Type} {x : Exchange α} {cs : List Command}
    (h : x.errands = cs.map .pending) : x.commands = cs := by
  have same : Errand.command ∘ Errand.pending = id := rfl
  rw [Exchange.commands, h, List.map_map, same, List.map_id]

theorem mem_held_iff {es : List Errand} {replicas : List String} {os : List Outcome}
    {token replica : String} {ttl : Nat}
    (sent : es.map Errand.command = replicas.map (.acquire · token ttl))
    (answered : es.map Errand.outcome = os.map some) :
    replica ∈ Round.held (replicas.zip (os.map Mark.ofOutcome)) ↔
      ∃ e ∈ es, e.command = .acquire replica token ttl ∧
        ∃ o, e.outcome = some o ∧ Mark.ofOutcome o = .taken := by
  induction es generalizing replicas os with
  | nil =>
      have none : replicas = [] := by simpa using sent.symm
      subst none
      simp [Round.held]
  | cons e es ih =>
      cases replicas with
      | nil => cases sent
      | cons r replicas =>
          cases os with
          | nil => cases answered
          | cons o os =>
              simp only [List.map_cons, List.cons.injEq] at sent answered
              have later := ih sent.2 answered.2
              have here : (e.command = .acquire replica token ttl ∧
                  ∃ o, e.outcome = some o ∧ Mark.ofOutcome o = .taken) ↔
                    replica = r ∧ Mark.ofOutcome o = .taken := by
                simp [sent.1, answered.1, eq_comm]
              simp only [Round.held] at later
              simp only [Round.held, List.map_cons, List.zip_cons_cons, List.filter_cons,
                List.mem_cons, exists_eq_or_imp, here, ← later]
              by_cases taken : Mark.ofOutcome o = .taken <;> simp [taken]

theorem held_sublist (replicas : List String) (marks : List Mark) :
    (Round.held (replicas.zip marks)).Sublist replicas := by
  induction replicas generalizing marks with
  | nil => exact List.Sublist.refl []
  | cons r replicas ih =>
      cases marks with
      | nil => exact List.nil_sublist _
      | cons m marks =>
          simp only [Round.held, List.zip_cons_cons, List.filter_cons]
          split
          · exact (ih marks).cons_cons r
          · exact (ih marks).cons r

namespace Stage

theorem append {c : Client} {signals : List String} (stage : Stage q key signalled c)
    (apart : ∀ t ∈ signals, c.token? ≠ some t) : Stage q key (signals ++ signalled) c := by
  have still : ∀ t, c.token? = some t → t ∉ signalled → t ∉ signals ++ signalled := by
    intro t own going h
    obtain h | h := List.mem_append.mp h
    · exact apart t h own
    · exact going h
  cases stage with
  | idle => exact .idle
  | acquiring going sent rest => exact .acquiring (still _ rfl going) sent rest
  | yielding going sent rest => exact .yielding (still _ rfl going) sent rest
  | holding going sound => exact .holding (still _ rfl going) sound
  | renewing going sound sent rest => exact .renewing (still _ rfl going) sound sent rest
  | ending given sound sent rest =>
      exact .ending (List.mem_append_right _ given) sound sent rest

theorem sound {c : Client} {g : Grant} (stage : Stage q key signalled c)
    (has : c.grant? = some g) : g.Sound q key := by
  cases stage with
  | idle | acquiring _ _ _ | yielding _ _ _ => cases has
  | holding _ sound | renewing _ sound _ _ | ending _ sound _ _ =>
      cases has
      exact sound

theorem token_of_errand {c : Client} {e : Errand} (stage : Stage q key signalled c)
    (member : e ∈ c.errands) : e.command.token? = c.token? := by
  cases stage with
  | idle | holding _ _ => cases member
  | acquiring _ sent _ | yielding _ sent _ | renewing _ _ sent _ | ending _ _ sent _ =>
      have sentIt := List.mem_map_of_mem (f := Errand.command) member
      change e.command ∈ Exchange.commands _ at sentIt
      rw [sent] at sentIt
      obtain ⟨r, -, hr⟩ := List.mem_map.mp sentIt
      rw [← hr]
      rfl

theorem note {c : Client} (i : Nat) (o : Outcome) (stage : Stage q key signalled c) :
    Stage q key signalled (c.note i o) := by
  cases stage with
  | idle => exact .idle
  | acquiring going sent rest => exact .acquiring going (by rw [Exchange.commands_note, sent]) rest
  | yielding going sent rest => exact .yielding going (by rw [Exchange.commands_note, sent]) rest
  | holding going sound => exact .holding going sound
  | renewing going sound sent rest =>
      exact .renewing going sound (by rw [Exchange.commands_note, sent]) rest
  | ending given sound sent rest =>
      exact .ending given sound (by rw [Exchange.commands_note, sent]) rest

theorem resume_round {a : Attempt} {x : Exchange (Except Fault Lease)} {os : List Outcome}
    {now : Nat} {t : String} {signals : List String} {act : Activity (Except Fault Lease)}
    (stage : Stage q key signalled (.trying a x)) (answered : x.Answered os)
    (run : (x.next os).settle now t = (signals, act)) :
    signals = [] ∧
      ((∃ held, act =
          .ended (.ok ⟨q.keys.qualify key, a.token, held, q.majority, a.validity⟩) ∧
          held.Sublist (q.replicas key) ∧ q.majority ≤ held.length ∧
          now - a.begun < a.validity.nanos ∧ ∀ r ∈ held, x.Took a.token r) ∨
        (∃ y, ∃ taken : List String, act = .asking y ∧ y.commands = taken.map (.release · a.token) ∧
          y.Closes fun r => ∃ f, r = .error f) ∨
        ∃ f, act = .ended (.error f)) := by
  cases stage with
  | acquiring _ sent rest =>
      have rest := rest now t os
      simp only at rest
      split at rest
      · rename_i hTake
        rw [run] at rest
        cases rest
        refine ⟨rfl, .inl ⟨_, rfl, held_sublist _ _, hTake.1, hTake.2, ?_⟩⟩
        intro r hr
        obtain ⟨e, hMember, hCommand, hTaken⟩ := (mem_held_iff sent answered).mp hr
        exact ⟨e, hMember, ⟨_, hCommand⟩, hTaken⟩
      · obtain ⟨y, hy, hErrands, hCloses⟩ := rest
        rw [run] at hy
        cases hy
        exact ⟨rfl, .inr (.inl ⟨y, _, rfl, commands_of_pending hErrands, hCloses⟩)⟩
  | yielding _ _ rest =>
      obtain ⟨r, hr, f, hf⟩ := rest now t os
      rw [run, hf] at hr
      cases hr
      exact ⟨rfl, .inr (.inr ⟨f, rfl⟩)⟩

theorem resume_lease {g : Grant} {x : Exchange Bool} {os : List Outcome} {now : Nat} {t : String}
    {signals : List String} {act : Activity Bool}
    (stage : Stage q key signalled (.tending g x))
    (run : (x.next os).settle now t = (signals, act)) :
    (signals = [] ∧ act = .ended true ∧ g.lease.token ∉ signalled ∧
        g.lease.majority ≤ os.countP Lease.agrees) ∨
      (∃ y, signals = [g.lease.token] ∧ os.countP Lease.agrees < g.lease.majority ∧
        act = .asking y ∧ y.commands = g.lease.held.map (.release · g.lease.token) ∧
        y.Closes (· = false)) ∨
      (signals = [] ∧ act = .ended false ∧ g.lease.token ∈ signalled) := by
  cases stage with
  | renewing going _ _ rest =>
      have rest := rest now t os
      split at rest
      · rename_i hLost
        obtain ⟨y, hy, hErrands, hCloses⟩ := rest
        rw [run] at hy
        cases hy
        exact .inr (.inl ⟨y, rfl, hLost, rfl, commands_of_pending hErrands, hCloses⟩)
      · rename_i hKept
        rw [run] at rest
        cases rest
        exact .inl ⟨rfl, rfl, going, by omega⟩
  | ending given _ _ rest =>
      obtain ⟨b, hb, hFalse⟩ := rest now t os
      rw [run, hFalse] at hb
      cases hb
      exact .inr (.inr ⟨rfl, rfl, given⟩)

end Stage

theorem settle_prompt {l : Lease} {p : Prompt} {now : Nat} {t : String} {signals : List String}
    {act : Activity Bool} (run : (l.react p).settle now t = (signals, act)) :
    (p = .due ∧ signals = [] ∧ ∃ x, act = .asking x ∧
        x.errands = (l.held.map (.extend · l.token (milliseconds l.validity))).map .pending ∧
        x.Decides l) ∨
      (p = .stop ∧ signals = [l.token] ∧ ∃ x, act = .asking x ∧
        x.commands = l.held.map (.release · l.token) ∧ x.Closes (· = false)) := by
  cases p with
  | due =>
      obtain ⟨x, hx, hErrands, hDecides⟩ := settle_react_due l now t
      rw [run] at hx
      cases hx
      exact .inl ⟨rfl, rfl, x, rfl, hErrands, hDecides⟩
  | stop =>
      obtain ⟨x, hx, hErrands, hCloses⟩ := settle_react_stop l now t
      rw [run] at hx
      cases hx
      exact .inr ⟨rfl, rfl, x, rfl, commands_of_pending hErrands, hCloses⟩

/-- Clients stand at stages of their plans, and every round has a token of its own. -/
structure Orderly (q : Quorum) (key : String) (s : Contest) : Prop where
  stage : ∀ i, Stage q key s.signalled (s.clients i)
  drawn : ∀ i t, (s.clients i).token? = some t → t ∈ s.drawn
  apart : ∀ i j t, (s.clients i).token? = some t → (s.clients j).token? = some t → i = j
  told : ∀ t ∈ s.signalled, t ∈ s.drawn

theorem advance_clients_self (s : Contest) (i : Nat) (signals : List String) (c : Client) :
    (s.advance i signals c).clients i = c := by
  simp [Contest.advance]

theorem advance_clients_of_ne (s : Contest) {i j : Nat} (signals : List String) (c : Client)
    (h : j ≠ i) : (s.advance i signals c).clients j = s.clients j := by
  simp [Contest.advance, h]

@[simp] theorem Client.attempt?_note (i : Nat) (o : Outcome) (c : Client) :
    (c.note i o).attempt? = c.attempt? := by
  cases c <;> rfl

@[simp] theorem Client.token?_note (i : Nat) (o : Outcome) (c : Client) :
    (c.note i o).token? = c.token? := by
  rw [token?, attempt?_note, token?]

theorem Client.token?_of_attempt? {c : Client} {a : Attempt} (h : c.attempt? = some a) :
    c.token? = some a.token := by
  rw [token?, h, Option.map_some]

theorem Client.attempt?_of_grant? {c : Client} {g : Grant} (h : c.grant? = some g) :
    c.attempt? = some g.attempt := by
  cases c <;> cases h <;> rfl

theorem Client.attempt?_ofReaction {g : Grant} {act : Activity Bool} {a : Attempt}
    (h : (Client.ofReaction g act).attempt? = some a) : g.attempt = a := by
  cases act with
  | asking x => simpa [Client.ofReaction, Client.attempt?] using h
  | ended b =>
      cases b with
      | true => simpa [Client.ofReaction, Client.attempt?, Grant.attempt] using h
      | false => simp [Client.ofReaction, Client.attempt?] at h

theorem Client.token?_ofReaction {g : Grant} {act : Activity Bool} {t : String}
    (h : (Client.ofReaction g act).token? = some t) : g.lease.token = t := by
  obtain ⟨a, ha, rfl⟩ := Option.map_eq_some_iff.mp h
  rw [← attempt?_ofReaction ha, Grant.attempt]

namespace Orderly

theorem start : Orderly q key .start := by
  refine ⟨fun _ => .idle, ?_, ?_, ?_⟩
  · intro i t h
    cases h
  · intro i j t h
    cases h
  · intro t h
    cases h

/-- What the step of one client leaves of an orderly contest: it need only be said where that client
comes to stand, and that it gives no signals but its own. -/
theorem advance {s : Contest} (h : Orderly q key s) {i : Nat} {signals : List String} {c : Client}
    (own : ∀ t ∈ signals, (s.clients i).token? = some t)
    (keeps : ∀ t, c.token? = some t → (s.clients i).token? = some t)
    (stage : Stage q key (signals ++ s.signalled) c) : Orderly q key (s.advance i signals c) := by
  have had : ∀ j t, ((s.advance i signals c).clients j).token? = some t →
      (s.clients j).token? = some t := by
    intro j t has
    by_cases hj : j = i
    · subst hj
      rw [advance_clients_self] at has
      exact keeps t has
    · rwa [advance_clients_of_ne _ _ _ hj] at has
  refine ⟨?_, ?_, ?_, ?_⟩
  · intro j
    by_cases hj : j = i
    · rw [hj, advance_clients_self]
      exact stage
    · rw [advance_clients_of_ne _ _ _ hj]
      apply (h.stage j).append
      intro t ht has
      exact hj (h.apart j i t has (own t ht))
  · intro j t has
    exact h.drawn j t (had j t has)
  · intro j k t hasJ hasK
    exact h.apart j k t (had j t hasJ) (had k t hasK)
  · intro t ht
    obtain ht | ht := List.mem_append.mp ht
    · exact h.drawn i t (own t ht)
    · exact h.told t ht

theorem tryLock {s : Contest} (h : Orderly q key s) {i : Nat} {a : Attempt}
    {x : Exchange (Except Fault Lease)} (idle : s.clients i = .idle) (fresh : a.token ∉ s.drawn)
    (sent : x.commands = (q.replicas key).map (.acquire · a.token (milliseconds a.validity)))
    (rest : x.Concludes (q.lasting a.validity) key a.token a.begun) :
    Orderly q key
      ({ s with drawn := a.token :: s.drawn }.advance i [] (.trying a x)) := by
  have others : ∀ j t, j ≠ i →
      (({ s with drawn := a.token :: s.drawn }.advance i [] (.trying a x)).clients j).token? =
        some t → (s.clients j).token? = some t ∧ t ≠ a.token := by
    intro j t hj has
    rw [advance_clients_of_ne _ _ _ hj] at has
    exact ⟨has, fun same => fresh (same ▸ h.drawn j t has)⟩
  have self : ∀ t,
      (({ s with drawn := a.token :: s.drawn }.advance i [] (.trying a x)).clients i).token? =
        some t → t = a.token := by
    intro t has
    rw [advance_clients_self] at has
    exact (Option.some.inj has).symm
  refine ⟨?_, ?_, ?_, ?_⟩
  · intro j
    by_cases hj : j = i
    · rw [hj, advance_clients_self]
      exact .acquiring (fun told => fresh (h.told _ told)) sent rest
    · rw [advance_clients_of_ne _ _ _ hj]
      exact h.stage j
  · intro j t has
    by_cases hj : j = i
    · subst hj
      rw [self t has]
      exact List.mem_cons_self
    · exact List.mem_cons_of_mem _ (h.drawn j t (others j t hj has).1)
  · intro j k t hasJ hasK
    by_cases hj : j = i
    · subst hj
      by_contra hk
      exact (others k t (fun e => hk e.symm) hasK).2 (self t hasJ)
    · by_cases hk : k = i
      · subst hk
        exact absurd (self t hasK) (others j t hj hasJ).2
      · exact h.apart j k t (others j t hj hasJ).1 (others k t hk hasK).1
  · intro t ht
    exact List.mem_cons_of_mem _ (h.told t ht)

theorem step {s s' : Contest} {m : Move} (h : Orderly q key s) (step : Turn q key s m s') :
    Orderly q key s' := by
  cases step with
  | pass d => exact ⟨h.stage, h.drawn, h.apart, h.told⟩
  | @tryLock i validity token signals act idle fresh run =>
      obtain ⟨x, hx, hErrands, hConcludes⟩ :=
        settle_tryLock (q.lasting validity) key token s.registry.now
      rw [run] at hx
      cases hx
      exact h.tryLock (a := ⟨token, validity, s.registry.now⟩) idle fresh
        (commands_of_pending hErrands) hConcludes
  | @serve i n c f errand =>
      have h' : Orderly q key { s with registry := (s.registry.meet c f).2 } :=
        ⟨h.stage, h.drawn, h.apart, h.told⟩
      apply h'.advance
      · intro t ht
        cases ht
      · intro t has
        rwa [Client.token?_note] at has
      · exact (h.stage i).note n _
  | @resumeRound i a x os signals act stand answered run =>
      have stage := stand ▸ h.stage i
      have going : a.token ∉ s.signalled := by
        cases stage with
        | acquiring going _ _ | yielding going _ _ => exact going
      obtain ⟨rfl, hAct⟩ := stage.resume_round answered run
      apply h.advance
      · intro t ht
        cases ht
      · intro t has
        rw [stand]
        obtain ⟨held, rfl, -⟩ | ⟨y, taken, rfl, -⟩ | ⟨f, rfl⟩ := hAct
        · exact has
        · exact has
        · cases has
      · obtain ⟨held, rfl, hSub, hEnough, -, -⟩ | ⟨y, taken, rfl, hSent, hCloses⟩ | ⟨f, rfl⟩ := hAct
        · exact .holding going ⟨rfl, hSub, hEnough⟩
        · exact .yielding going hSent hCloses
        · exact .idle
  | @resumeLease i g x os signals act stand answered run =>
      have stage := stand ▸ h.stage i
      have sound := stage.sound rfl
      apply h.advance
      · intro t ht
        rw [stand]
        obtain ⟨rfl, -, -, -⟩ | ⟨y, rfl, -⟩ | ⟨rfl, -, -⟩ := stage.resume_lease run
        · cases ht
        · exact congrArg some (List.mem_singleton.mp ht).symm
        · cases ht
      · intro t has
        rw [stand]
        exact congrArg some (Client.token?_ofReaction has)
      · obtain ⟨rfl, rfl, going, -⟩ | ⟨y, rfl, -, rfl, hSent, hCloses⟩ | ⟨rfl, rfl, -⟩ :=
          stage.resume_lease run
        · exact .holding going ⟨sound.majority, sound.held, sound.enough⟩
        · exact .ending List.mem_cons_self sound hSent hCloses
        · exact .idle
  | @prompt i g p signals act stand run =>
      have stage := stand ▸ h.stage i
      have sound := stage.sound rfl
      have going : g.lease.token ∉ s.signalled := by
        cases stage with
        | holding going _ => exact going
      apply h.advance
      · intro t ht
        rw [stand]
        obtain ⟨-, rfl, -⟩ | ⟨-, rfl, -⟩ := settle_prompt run
        · cases ht
        · exact congrArg some (List.mem_singleton.mp ht).symm
      · intro t has
        rw [stand]
        exact congrArg some (Client.token?_ofReaction has)
      · obtain ⟨-, rfl, x, rfl, hErrands, hDecides⟩ | ⟨-, rfl, x, rfl, hSent, hCloses⟩ :=
          settle_prompt run
        · exact .renewing going sound (commands_of_pending hErrands) hDecides
        · exact .ending List.mem_cons_self sound hSent hCloses

theorem of_reach {allowed : Contest → Move → Prop} {s : Contest} (r : Reach q key allowed s) :
    Orderly q key s := by
  induction r with
  | start => exact start
  | step _ _ next ih => exact ih.step next

theorem foreign {s : Contest} (h : Orderly q key s) {i j n : Nat} {c : Command} {t : String}
    (has : (s.clients i).token? = some t) (errand : (s.clients j).errands[n]? = some (.pending c))
    (apart : i ≠ j) : c.token? ≠ some t := by
  intro same
  have own := (h.stage j).token_of_errand (List.mem_of_getElem? errand)
  exact apart (h.apart i j t has (own.symm.trans same))

end Orderly
end Remote
end CacheFacade
