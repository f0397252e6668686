import CacheFacade.Proofs.Remote.Stages

/-!
The log of a contest: every command that came to its fate, and what its sender was told. For a token
it is kept in balance. While a client works under the token, the replicas that were confirmed are
those that it works on; once no client does, they are those that were asked to let go.
-/

namespace CacheFacade
namespace Remote

/-- A command that was sent, what became of it, and what its sender was told. -/
structure LogEntry where
  command : Command
  fate : Fate
  outcome : Outcome

/-- The log entry of a move, if it brings a command to its fate. -/
def Contest.logged (s : Contest) : Move → List LogEntry
  | .serve i j f =>
    match (s.clients i).errands[j]? with
    | some e => [⟨e.command, f, (s.registry.meet e.command f).1⟩]
    | none => []
  | _ => []

theorem Contest.logged_serve {s : Contest} {i j : Nat} {c : Command} {f : Fate}
    (errand : (s.clients i).errands[j]? = some (.pending c)) :
    s.logged (.serve i j f) = [⟨c, f, (s.registry.meet c f).1⟩] := by
  simp [logged, errand, Errand.pending]

/-- A command that was carried out is not said to be unsent or refused. -/
def Fate.Honest : Fate → Prop
  | .lost t => ∃ reason, t = .dropped reason
  | _ => True

def Move.Honest : Move → Prop
  | .serve _ _ f => f.Honest
  | _ => True

/-- The contests that runs lead to, with their logs. -/
inductive LoggedRun (q : Quorum) (key : String) : List LogEntry → Contest → Prop
  | start : LoggedRun q key [] .start
  | step {log : List LogEntry} {s s' : Contest} {m : Move} (before : LoggedRun q key log s)
      (honest : m.Honest) (next : Turn q key s m s') :
      LoggedRun q key (s.logged m ++ log) s'

/-- A contest with a log is one that a run of honest moves leads to. -/
theorem exists_log_iff {q : Quorum} {key : String} {s : Contest} :
    (∃ log, LoggedRun q key log s) ↔ Reach q key (fun _ => Move.Honest) s := by
  constructor
  · rintro ⟨log, run⟩
    induction run with
    | start => exact .start
    | step _ honest next ih => exact ih.step honest next
  · intro reach
    induction reach with
    | start => exact ⟨[], .start⟩
    | step _ honest next ih =>
        obtain ⟨log, run⟩ := ih
        exact ⟨_, run.step honest next⟩

theorem LoggedRun.orderly {q : Quorum} {key : String} {log : List LogEntry} {s : Contest}
    (run : LoggedRun q key log s) : Orderly q key s :=
  .of_reach (exists_log_iff.mp ⟨log, run⟩)

/-- The replica was confirmed to a round. -/
def Taken (log : List LogEntry) (token replica : String) : Prop :=
  ∃ d ∈ log, (∃ ttl, d.command = .acquire replica token ttl) ∧ Mark.ofOutcome d.outcome = .taken

/-- The replica was asked to let go of the token. -/
def Released (log : List LogEntry) (token replica : String) : Prop :=
  ∃ d ∈ log, d.command = .release replica token

/-- The replicas that a client works on: those confirmed so far, those it lets go, or its lease. -/
def Client.Takes : Client → String → Prop
  | .idle, _ => False
  | .trying a x, r => x.Took a.token r ∨ .release r a.token ∈ x.commands
  | .holding g, r | .tending g _, r => r ∈ g.lease.held

/-- The client was told what became of its request to let go. -/
def Client.Returned (c : Client) (token replica : String) : Prop :=
  ∃ e ∈ c.errands, e.command = .release replica token ∧ e.outcome.isSome

variable {q : Quorum} {key : String} {log : List LogEntry} {s s' : Contest}

theorem taken_cons (d : LogEntry) (token r : String) :
    Taken (d :: log) token r ↔
      ((∃ ttl, d.command = .acquire r token ttl) ∧ Mark.ofOutcome d.outcome = .taken) ∨
        Taken log token r := by
  simp [Taken]

theorem released_cons (d : LogEntry) (token r : String) :
    Released (d :: log) token r ↔ d.command = .release r token ∨ Released log token r := by
  simp [Released]

/-- A entry says nothing about the tokens of others. -/
theorem taken_cons_of_token {d : LogEntry} {token : String} (other : d.command.token? ≠ some token)
    (r : String) : Taken (d :: log) token r ↔ Taken log token r := by
  rw [taken_cons]
  refine ⟨fun h => h.resolve_left ?_, .inr⟩
  rintro ⟨⟨ttl, same⟩, -⟩
  exact other (by rw [same]; rfl)

theorem released_cons_of_token {d : LogEntry} {token : String} (other : d.command.token? ≠ some token)
    (r : String) : Released (d :: log) token r ↔ Released log token r := by
  rw [released_cons]
  refine ⟨fun h => h.resolve_left ?_, .inr⟩
  intro same
  exact other (by rw [same]; rfl)

section Exchanges

variable {α : Type} {x : Exchange α} {token r : String}

theorem not_returned_of_pending {es : List Errand} {cs : List Command}
    (h : es = cs.map .pending) (c : Command) :
    ¬ ∃ e ∈ es, e.command = c ∧ e.outcome.isSome := by
  rintro ⟨e, member, -, told⟩
  rw [Exchange.outcome_of_pending h member] at told
  cases told

theorem not_returned_of_commands {cs : List Command} (h : x.commands = cs)
    (other : .release r token ∉ cs) :
    ¬ ∃ e ∈ x.errands, e.command = .release r token ∧ e.outcome.isSome := by
  rintro ⟨e, member, same, -⟩
  apply other
  rw [← h, ← same]
  exact List.mem_map_of_mem member

theorem returned_iff_of_answered {os : List Outcome} (answered : x.Answered os) (c : Command) :
    (∃ e ∈ x.errands, e.command = c ∧ e.outcome.isSome) ↔ c ∈ x.commands := by
  constructor
  · rintro ⟨e, member, rfl, -⟩
    exact List.mem_map_of_mem member
  · intro sent
    obtain ⟨e, member, rfl⟩ := List.mem_map.mp sent
    obtain ⟨o, told⟩ := answered.exists_outcome member
    exact ⟨e, member, rfl, by rw [told]; rfl⟩

end Exchanges

theorem mem_held_iff_took {x : Exchange (Except Fault Lease)} {replicas : List String}
    {os : List Outcome} {token r : String} {ttl : Nat}
    (sent : x.commands = replicas.map (.acquire · token ttl)) (answered : x.Answered os) :
    r ∈ Round.held (replicas.zip (os.map Mark.ofOutcome)) ↔ x.Took token r := by
  rw [mem_held_iff sent answered]
  constructor
  · rintro ⟨e, member, same, told⟩
    exact ⟨e, member, ⟨ttl, same⟩, told⟩
  · rintro ⟨e, member, ⟨ttl', same⟩, told⟩
    refine ⟨e, member, ?_, told⟩
    have asked : e.command ∈ x.commands := List.mem_map_of_mem member
    rw [sent] at asked
    obtain ⟨r', -, own⟩ := List.mem_map.mp asked
    rw [same] at own ⊢
    cases own
    rfl

theorem Client.takes_note {signalled : List String} {c : Client} {n : Nat} {cmd : Command}
    {o : Outcome} {t : String} (stage : Stage q key signalled c)
    (errand : c.errands[n]? = some (.pending cmd)) (has : c.token? = some t) (r : String) :
    (c.note n o).Takes r ↔
      ((∃ ttl, cmd = .acquire r t ttl) ∧ Mark.ofOutcome o = .taken) ∨ c.Takes r := by
  cases stage with
  | idle | holding _ _ => cases errand
  | @acquiring a x _ _ _ | @yielding a x _ _ _ _ =>
      obtain rfl := Option.some.inj has
      have errand : x.errands[n]? = some (.pending cmd) := errand
      simp only [Client.note, Client.Takes, took_note errand, Exchange.commands_note, or_assoc]
  | renewing _ _ sent _ | ending _ _ sent _ =>
      have other : ¬ ∃ ttl, cmd = .acquire r t ttl := by
        rintro ⟨ttl, rfl⟩
        have asked : .acquire r t ttl ∈ Exchange.commands _ :=
          List.mem_map_of_mem (List.mem_of_getElem? errand)
        simp [sent] at asked
      simp only [Client.note, Client.Takes, other, false_and, false_or]

theorem Client.returned_note {c : Client} {n : Nat} {cmd : Command} {o : Outcome}
    (errand : c.errands[n]? = some (.pending cmd)) (t r : String) :
    (c.note n o).Returned t r ↔ cmd = .release r t ∨ c.Returned t r := by
  have noted : ∀ {α : Type} {x : Exchange α}, x.errands[n]? = some (.pending cmd) →
      ((∃ e ∈ (x.note n o).errands, e.command = .release r t ∧ e.outcome.isSome) ↔
        cmd = .release r t ∨ ∃ e ∈ x.errands, e.command = .release r t ∧ e.outcome.isSome) := by
    intro α x errand
    refine (Exchange.exists_note_iff errand ?_).trans (or_congr_left ?_)
    · rintro ⟨-, told⟩
      cases told
    · simp
  cases c with
  | idle | holding _ => cases errand
  | trying _ _ | tending _ _ => exact noted errand

/-- A client that works on what it did before, and has had no more releases come back. -/
structure Client.GoesOn (c c' : Client) : Prop where
  token : c'.token? = c.token?
  takes : ∀ r, c'.Takes r ↔ c.Takes r
  returned : ∀ t r, c.token? = some t → (c'.Returned t r ↔ c.Returned t r)

/-- A client may stop when every replica that it works on has been asked to let go. -/
def Client.Through (c : Client) : Prop :=
  ∀ t r, c.token? = some t → (c.Takes r ↔ c.Returned t r)

/-- A step of a client that keeps its token leaves every client its token. -/
theorem token?_advance {i : Nat} {c : Client} (signals : List String)
    (same : c.token? = (s.clients i).token?) (j : Nat) :
    ((s.advance i signals c).clients j).token? = (s.clients j).token? := by
  by_cases hj : j = i
  · rw [hj, advance_clients_self, same]
  · rw [advance_clients_of_ne _ _ _ hj]

/-- The log in balance with the clients. -/
structure Balanced (log : List LogEntry) (s : Contest) : Prop where
  taken : ∀ i t, (s.clients i).token? = some t → ∀ r, Taken log t r ↔ (s.clients i).Takes r
  released : ∀ i t, (s.clients i).token? = some t →
    ∀ r, Released log t r ↔ (s.clients i).Returned t r
  done : ∀ t ∈ s.drawn, (∀ i, (s.clients i).token? ≠ some t) → ∀ r,
    Taken log t r ↔ Released log t r
  drawn : ∀ d ∈ log, ∀ t, d.command.token? = some t → t ∈ s.drawn

namespace Balanced

theorem start : Balanced [] .start := by
  refine ⟨?_, ?_, ?_, ?_⟩
  · intro i t has
    cases has
  · intro i t has
    cases has
  · intro t drawn
    cases drawn
  · intro d member
    cases member

theorem not_taken_of_fresh (h : Balanced log s) {t : String} (fresh : t ∉ s.drawn) (r : String) :
    ¬ Taken log t r := by
  rintro ⟨d, member, ⟨ttl, asked⟩, -⟩
  exact fresh (h.drawn d member t (by rw [asked]; rfl))

theorem not_released_of_fresh (h : Balanced log s) {t : String} (fresh : t ∉ s.drawn)
    (r : String) : ¬ Released log t r := by
  rintro ⟨d, member, asked⟩
  exact fresh (h.drawn d member t (by rw [asked]; rfl))

theorem goesOn (h : Balanced log s) {i : Nat} {signals : List String} {c : Client}
    (on : (s.clients i).GoesOn c) : Balanced log (s.advance i signals c) := by
  have had := token?_advance signals on.token
  refine ⟨?_, ?_, ?_, h.drawn⟩
  · intro j t has r
    rw [had] at has
    rw [h.taken j t has]
    by_cases hj : j = i
    · rw [hj, advance_clients_self, on.takes]
    · rw [advance_clients_of_ne _ _ _ hj]
  · intro j t has r
    rw [had] at has
    rw [h.released j t has]
    by_cases hj : j = i
    · subst hj
      rw [advance_clients_self, on.returned t r has]
    · rw [advance_clients_of_ne _ _ _ hj]
  · intro t drawn none
    exact h.done t drawn fun j => had j ▸ none j

theorem stops (h : Balanced log s) {i : Nat} {signals : List String} {c : Client}
    (through : (s.clients i).Through) (stopped : c.token? = none) :
    Balanced log (s.advance i signals c) := by
  have other : ∀ j t, ((s.advance i signals c).clients j).token? = some t → j ≠ i := by
    rintro j t has rfl
    rw [advance_clients_self, stopped] at has
    cases has
  refine ⟨?_, ?_, ?_, h.drawn⟩
  · intro j t has
    have apart := other j t has
    rw [advance_clients_of_ne _ _ _ apart] at has ⊢
    exact h.taken j t has
  · intro j t has
    have apart := other j t has
    rw [advance_clients_of_ne _ _ _ apart] at has ⊢
    exact h.released j t has
  · intro t drawn none r
    by_cases had : (s.clients i).token? = some t
    · rw [h.taken i t had, h.released i t had]
      exact through t r had
    · apply h.done t drawn
      intro j
      by_cases hj : j = i
      · rwa [hj]
      · have still := none j
        rwa [advance_clients_of_ne _ _ _ hj] at still

theorem tryLock (h : Balanced log s) {i : Nat} {a : Attempt} {x : Exchange (Except Fault Lease)}
    {replicas : List String} {ttl : Nat} (idle : s.clients i = .idle) (fresh : a.token ∉ s.drawn)
    (sent : x.errands = (replicas.map (.acquire · a.token ttl)).map .pending) :
    Balanced log ({ s with drawn := a.token :: s.drawn }.advance i [] (.trying a x)) := by
  have self : ∀ t,
      (({ s with drawn := a.token :: s.drawn }.advance i [] (.trying a x)).clients i).token? =
        some t → t = a.token := by
    intro t has
    rw [advance_clients_self] at has
    exact (Option.some.inj has).symm
  refine ⟨?_, ?_, ?_, ?_⟩
  · intro j t has r
    by_cases hj : j = i
    · subst hj
      obtain rfl := self t has
      rw [advance_clients_self]
      refine iff_of_false (h.not_taken_of_fresh fresh r) ?_
      rintro (took | release)
      · exact not_took_of_pending sent took
      · simp [commands_of_pending sent] at release
    · rw [advance_clients_of_ne _ _ _ hj] at has ⊢
      exact h.taken j t has r
  · intro j t has r
    by_cases hj : j = i
    · subst hj
      obtain rfl := self t has
      rw [advance_clients_self]
      exact iff_of_false (h.not_released_of_fresh fresh r) (not_returned_of_pending sent _)
    · rw [advance_clients_of_ne _ _ _ hj] at has ⊢
      exact h.released j t has r
  · intro t drawn none r
    have old : t ∈ s.drawn := by
      refine (List.mem_cons.mp drawn).resolve_left ?_
      rintro rfl
      exact none i (by rw [advance_clients_self]; rfl)
    apply h.done t old
    intro j
    by_cases hj : j = i
    · rw [hj, idle]
      exact nofun
    · have still := none j
      rwa [advance_clients_of_ne _ _ _ hj] at still
  · intro d member t same
    exact List.mem_cons_of_mem _ (h.drawn d member t same)

theorem serve (h : Balanced log s) (orderly : Orderly q key s) {i j : Nat} {c : Command}
    (f : Fate) (o : Outcome) (registry : Registry)
    (errand : (s.clients i).errands[j]? = some (.pending c)) :
    Balanced (⟨c, f, o⟩ :: log)
      ({ s with registry := registry }.advance i [] ((s.clients i).note j o)) := by
  have stage := orderly.stage i
  have own : c.token? = (s.clients i).token? :=
    stage.token_of_errand (List.mem_of_getElem? errand)
  have had := token?_advance (s := { s with registry := registry }) []
    (Client.token?_note j o (s.clients i))
  refine ⟨?_, ?_, ?_, ?_⟩
  · intro k t has r
    rw [had] at has
    by_cases hk : k = i
    · subst hk
      rw [advance_clients_self, Client.takes_note stage errand has, taken_cons, h.taken k t has]
    · rw [advance_clients_of_ne _ _ _ hk, ← h.taken k t has]
      exact taken_cons_of_token (orderly.foreign has errand hk) r
  · intro k t has r
    rw [had] at has
    by_cases hk : k = i
    · subst hk
      rw [advance_clients_self, Client.returned_note errand, released_cons, h.released k t has]
    · rw [advance_clients_of_ne _ _ _ hk, ← h.released k t has]
      exact released_cons_of_token (orderly.foreign has errand hk) r
  · intro t drawn none r
    have still : ∀ k, (s.clients k).token? ≠ some t := fun k => had k ▸ none k
    have other : c.token? ≠ some t := own ▸ still i
    rw [taken_cons_of_token other, released_cons_of_token other]
    exact h.done t drawn still r
  · intro d member t same
    obtain rfl | old := List.mem_cons.mp member
    · exact orderly.drawn i t (own ▸ same)
    · exact h.drawn d old t same

end Balanced

namespace Stage

variable {signalled signals : List String} {now : Nat} {t : String}

theorem round_goesOn {a : Attempt} {x : Exchange (Except Fault Lease)} {os : List Outcome}
    {act : Activity (Except Fault Lease)} (stage : Stage q key signalled (.trying a x))
    (answered : x.Answered os) (run : (x.next os).settle now t = (signals, act)) :
    (Client.trying a x).GoesOn (.ofRound now a act) ∨
      (Client.trying a x).Through ∧ (Client.ofRound now a act).token? = none := by
  cases stage with
  | acquiring _ sent rest =>
      have unasked : ∀ r, .release r a.token ∉ x.commands := by simp [sent]
      have unreturned : ∀ t r, (Client.trying a x).token? = some t →
          ¬ (Client.trying a x).Returned t r := by
        rintro t r has
        obtain rfl := Option.some.inj has
        exact not_returned_of_commands rfl (unasked r)
      have rest := rest now t os
      simp only at rest
      split at rest
      · rw [run] at rest
        cases rest
        refine .inl ⟨rfl, ?_, ?_⟩
        · intro r
          simp only [Client.ofRound, Client.Takes, unasked, or_false]
          exact mem_held_iff_took sent answered
        · intro t r has
          refine iff_of_false ?_ (unreturned t r has)
          rintro ⟨e, member, -⟩
          cases member
      · obtain ⟨y, hy, pending, -⟩ := rest
        rw [run] at hy
        cases hy
        refine .inl ⟨rfl, ?_, ?_⟩
        · intro r
          simp only [Client.ofRound, Client.Takes, unasked, or_false, not_took_of_pending pending,
            false_or, commands_of_pending pending, List.mem_map, Command.release.injEq, and_true,
            exists_eq_right]
          exact mem_held_iff_took sent answered
        · intro t r has
          exact iff_of_false (not_returned_of_pending pending _) (unreturned t r has)
  | yielding _ sent rest =>
      obtain ⟨r, hr, f, rfl⟩ := rest now t os
      rw [run] at hr
      cases hr
      refine .inr ⟨?_, rfl⟩
      intro t r has
      obtain rfl := Option.some.inj has
      simp only [Client.Takes, not_took_of_release sent, false_or]
      exact (returned_iff_of_answered answered _).symm

theorem lease_goesOn {g : Grant} {x : Exchange Bool} {os : List Outcome} {act : Activity Bool}
    (stage : Stage q key signalled (.tending g x)) (answered : x.Answered os)
    (run : (x.next os).settle now t = (signals, act)) :
    (Client.tending g x).GoesOn (.ofReaction g act) ∨
      (Client.tending g x).Through ∧ (Client.ofReaction g act).token? = none := by
  cases stage with
  | renewing _ _ sent rest =>
      have unreturned : ∀ t r, ¬ (Client.tending g x).Returned t r := by
        intro t r
        exact not_returned_of_commands sent (by simp)
      have rest := rest now t os
      split at rest
      · obtain ⟨y, hy, pending, -⟩ := rest
        rw [run] at hy
        cases hy
        refine .inl ⟨rfl, fun r => Iff.rfl, ?_⟩
        intro t r _
        exact iff_of_false (not_returned_of_pending pending _) (unreturned t r)
      · rw [run] at rest
        cases rest
        refine .inl ⟨rfl, fun r => Iff.rfl, ?_⟩
        intro t r _
        exact iff_of_false nofun (unreturned t r)
  | ending _ _ sent rest =>
      obtain ⟨b, hb, rfl⟩ := rest now t os
      rw [run] at hb
      cases hb
      refine .inr ⟨?_, rfl⟩
      intro t r has
      obtain rfl := Option.some.inj has
      refine Iff.trans ?_ (returned_iff_of_answered answered _).symm
      simp [sent, Client.Takes, Grant.attempt]

end Stage

theorem Client.prompt_goesOn {g : Grant} {p : Prompt} {now : Nat} {t : String}
    {signals : List String} {act : Activity Bool}
    (run : (g.lease.react p).settle now t = (signals, act)) :
    (Client.holding g).GoesOn (.ofReaction g act) := by
  obtain ⟨x, cs, rfl, pending⟩ : ∃ x, ∃ cs : List Command, act = .asking x ∧
      x.errands = cs.map .pending := by
    cases p with
    | due =>
        obtain ⟨x, hx, pending, -⟩ := settle_react_due g.lease now t
        rw [run] at hx
        cases hx
        exact ⟨x, _, rfl, pending⟩
    | stop =>
        obtain ⟨x, hx, pending, -⟩ := settle_react_stop g.lease now t
        rw [run] at hx
        cases hx
        exact ⟨x, _, rfl, pending⟩
  refine ⟨rfl, fun r => Iff.rfl, ?_⟩
  intro t r _
  exact iff_of_false (not_returned_of_pending pending _) nofun

namespace Balanced

theorem step {m : Move} (h : Balanced log s) (orderly : Orderly q key s)
    (next : Turn q key s m s') : Balanced (s.logged m ++ log) s' := by
  cases next with
  | pass d => exact ⟨h.taken, h.released, h.done, h.drawn⟩
  | @tryLock i validity token signals act idle fresh run =>
      obtain ⟨x, hx, pending, -⟩ :=
        settle_tryLock (q.lasting validity) key token s.registry.now
      rw [run] at hx
      cases hx
      exact h.tryLock (a := ⟨token, validity, s.registry.now⟩) idle fresh pending
  | @serve i j c f errand =>
      rw [Contest.logged_serve errand]
      exact h.serve orderly f _ _ errand
  | @resumeRound i a x os signals act stand answered run =>
      obtain on | ⟨through, stopped⟩ := (stand ▸ orderly.stage i).round_goesOn answered run
      · exact h.goesOn (stand ▸ on)
      · exact h.stops (stand ▸ through) stopped
  | @resumeLease i g x os signals act stand answered run =>
      obtain on | ⟨through, stopped⟩ := (stand ▸ orderly.stage i).lease_goesOn answered run
      · exact h.goesOn (stand ▸ on)
      · exact h.stops (stand ▸ through) stopped
  | @prompt i g p signals act stand run =>
      exact h.goesOn (stand ▸ Client.prompt_goesOn run)

end Balanced

theorem LoggedRun.balanced (h : LoggedRun q key log s) : Balanced log s := by
  induction h with
  | start => exact .start
  | step before _ next ih => exact ih.step before.orderly next

end Remote
end CacheFacade
