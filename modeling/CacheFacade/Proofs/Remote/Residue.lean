import CacheFacade.Proofs.Remote.ServerLog
import CacheFacade.Proofs.Remote.Undisturbed

/-!
What a round leaves behind. It asks those replicas to let go that were confirmed to it. One that was
written while its answer was lost is not among them, and keeps the token until it runs out.
-/

namespace CacheFacade
namespace Remote

/-- The command was sent, and may have been carried out or not. -/
def Outcome.IsUnknown (o : Outcome) : Prop := ∃ reason, o = .error (.dropped reason)

def Fate.Reaches : Fate → Prop
  | .missed _ => False
  | _ => True

/-- The replica may have been written: it was confirmed, or the outcome is unknown. -/
def Written (log : List LogEntry) (token replica : String) : Prop :=
  ∃ d ∈ log, (∃ ttl, d.command = .acquire replica token ttl) ∧
    (Mark.ofOutcome d.outcome = .taken ∨ d.outcome.IsUnknown)

/-- The replica was asked to let go of the token, and the server carried it out. -/
def Freed (log : List LogEntry) (token replica : String) : Prop :=
  ∃ d ∈ log, d.command = .release replica token ∧ d.fate.Reaches

/-- The round with the token ended without a lock, or its lock was given back. -/
def Contest.IsOver (s : Contest) (token : String) : Prop :=
  token ∈ s.drawn ∧ ∀ i, (s.clients i).token? ≠ some token

theorem Outcome.not_isUnknown_of_taken {o : Outcome} (taken : Mark.ofOutcome o = .taken) :
    ¬ o.IsUnknown := by
  rintro ⟨reason, rfl⟩
  cases taken

namespace Registry

theorem carries_of_pass {r : Registry} {d : Nat} {key token : String}
    (h : (r.pass d).carries key token = true) : r.carries key token = true := by
  obtain ⟨deadline, held, live⟩ := (carries_iff _ _ _).mp h
  exact (carries_iff _ _ _).mpr ⟨deadline, held, Nat.lt_of_le_of_lt (Nat.le_add_right _ d) live⟩

theorem not_carries_release (r : Registry) (key token : String) :
    (r.serve (.release key token)).2.carries key token = false := by
  simp only [serve]
  split
  · simp [carries, tenure?]
  · rename_i absent
    exact Bool.eq_false_iff.mpr absent

/-- A key carries a token because it was just written, or still does because nothing freed it. -/
theorem carries_of_meet {r : Registry} {c : Command} {f : Fate} {key token : String}
    (h : (r.meet c f).2.carries key token = true) :
    (∃ ttl, c = .acquire key token ttl ∧ f.Reaches ∧ r.tenure? key = none) ∨
      r.carries key token = true ∧ (c = .release key token → ¬ f.Reaches) := by
  cases f with
  | missed t => exact .inr ⟨h, fun _ => id⟩
  | answered | lost t =>
      change (r.serve c).2.carries key token = true at h
      have kept : c ≠ .release key token := by
        rintro rfl
        rw [not_carries_release] at h
        cases h
      obtain ⟨d, held, live⟩ := (carries_iff _ _ _).mp h
      rw [serve_now] at live
      obtain same | ⟨token', ttl, rfl, vacant, now⟩ | ⟨token', ttl, rfl, carried, now⟩ |
        ⟨token', rfl, -, now⟩ := tenures_serve r c key
      · rw [same] at held
        exact .inr ⟨(carries_iff _ _ _).mpr ⟨d, held, live⟩, fun same => absurd same kept⟩
      · rw [now] at held
        cases held
        exact .inl ⟨ttl, rfl, trivial, vacant⟩
      · rw [now] at held
        cases held
        exact .inr ⟨carried, nofun⟩
      · rw [now] at held
        cases held

theorem taken_or_isUnknown_of_acquire {r : Registry} {f : Fate} {key token : String} {ttl : Nat}
    (vacant : r.tenure? key = none) (reaches : f.Reaches) (honest : f.Honest) :
    Mark.ofOutcome (r.meet (.acquire key token ttl) f).1 = .taken ∨
      Outcome.IsUnknown (r.meet (.acquire key token ttl) f).1 := by
  cases f with
  | answered =>
      left
      rw [meet, serve_acquire_vacant vacant]
      rfl
  | lost t =>
      obtain ⟨reason, rfl⟩ := honest
      exact .inr ⟨reason, rfl⟩
  | missed t => exact reaches.elim

end Registry

variable {q : Quorum} {key : String} {log : List LogEntry} {s s' : Contest}

theorem Stage.not_returned_of_acquire {signalled : List String} {c : Client} {n : Nat}
    {e : Errand} {t t' r r' : String} {ttl : Nat} (stage : Stage q key signalled c)
    (errand : c.errands[n]? = some e) (asked : e.command = .acquire r t ttl) :
    ¬ c.Returned t' r' := by
  have member := List.mem_map_of_mem (f := Errand.command) (List.mem_of_getElem? errand)
  rw [asked] at member
  cases stage with
  | idle | holding _ _ => cases member
  | acquiring _ sent _ => exact not_returned_of_commands sent (by simp)
  | yielding _ sent _ | renewing _ _ sent _ | ending _ _ sent _ =>
      change _ ∈ Exchange.commands _ at member
      simp [sent] at member

/-- A replica that carries a token may have been written under it, and was not freed since. -/
theorem LoggedRun.carried (h : LoggedRun q key log s) {r t : String}
    (carries : s.registry.carries r t = true) : Written log t r ∧ ¬ Freed log t r := by
  induction h with
  | start => cases carries
  | @step log s s' m before honest next ih =>
      cases next with
      | pass d => exact ih (Registry.carries_of_pass carries)
      | @serve i j c f errand =>
          rw [Contest.logged_serve errand]
          obtain ⟨ttl, rfl, reaches, vacant⟩ | ⟨carried, kept⟩ := Registry.carries_of_meet carries
          · refine ⟨⟨_, List.mem_cons_self, ⟨ttl, rfl⟩,
              Registry.taken_or_isUnknown_of_acquire vacant reaches honest⟩, ?_⟩
            rintro ⟨d, member, release, freed⟩
            obtain rfl | old := List.mem_cons.mp member
            · cases release
            -- The client that asks for the replica has asked none to let go under this token.
            have stage := before.orderly.stage i
            have has := stage.token_of_errand (List.mem_of_getElem? errand)
            apply stage.not_returned_of_acquire errand rfl
            exact (before.balanced.released i t has.symm r).mp ⟨d, old, release⟩
          · obtain ⟨⟨d, member, asked, mark⟩, unfreed⟩ := ih carried
            refine ⟨⟨d, List.mem_cons_of_mem _ member, asked, mark⟩, ?_⟩
            rintro ⟨d', member', release, freed⟩
            obtain rfl | old := List.mem_cons.mp member'
            · exact kept release freed
            · exact unfreed ⟨d', old, release, freed⟩
      | tryLock _ _ _ | resumeRound _ _ _ | resumeLease _ _ _ | prompt _ _ => exact ih carries

/-- The client asks for the replica under the token. -/
def Client.Asks (c : Client) (token replica : String) : Prop :=
  ∃ (n ttl : Nat), c.errands[n]? = some (Errand.pending (.acquire replica token ttl))

/-- A command that waits after an outcome came is another one, and waited before. -/
theorem Client.pending_of_note {c : Client} {j n : Nat} {o : Outcome} {cmd : Command}
    (waits : (c.note j o).errands[n]? = some (.pending cmd)) :
    j ≠ n ∧ c.errands[n]? = some (.pending cmd) := by
  have noted : ∀ {α : Type} {x : Exchange α}, (x.note j o).errands[n]? = some (.pending cmd) →
      j ≠ n ∧ x.errands[n]? = some (.pending cmd) := by
    intro α x waits
    rw [Exchange.note, List.getElem?_modify] at waits
    obtain ⟨e, there, shape⟩ := Option.map_eq_some_iff.mp waits
    by_cases h : j = n
    · simp [h, Errand.pending] at shape
    · simp only [h, if_false] at shape
      exact ⟨h, shape ▸ there⟩
  cases c with
  | idle | holding _ => cases waits
  | trying _ _ | tending _ _ => exact noted waits

namespace Stage

variable {signalled : List String} {c : Client} {r t : String}

theorem token?_of_asks (stage : Stage q key signalled c) (asks : c.Asks t r) :
    c.token? = some t := by
  obtain ⟨n, ttl, errand⟩ := asks
  exact (stage.token_of_errand (List.mem_of_getElem? errand)).symm

/-- A round asks for a replica by one command. -/
theorem errand_unique {m n : Nat} {d e : Errand} (stage : Stage q key signalled c)
    (first : c.errands[m]? = some d) (second : c.errands[n]? = some e)
    (asked : ∃ ttl, d.command = .acquire r t ttl)
    (askedAgain : ∃ ttl, e.command = .acquire r t ttl) : m = n := by
  obtain ⟨ttl, asked⟩ := asked
  obtain ⟨ttl', askedAgain⟩ := askedAgain
  have at_m : (c.errands.map Errand.command)[m]? = some (.acquire r t ttl) := by
    simp [first, asked]
  have at_n : (c.errands.map Errand.command)[n]? = some (.acquire r t ttl') := by
    simp [second, askedAgain]
  cases stage with
  | idle | holding _ _ => cases first
  | @acquiring a x _ sent _ =>
      change x.commands[m]? = _ at at_m
      change x.commands[n]? = _ at at_n
      simp only [sent, List.getElem?_map, Option.map_eq_some_iff, Command.acquire.injEq] at at_m at_n
      obtain ⟨r₁, there, rfl, -⟩ := at_m
      obtain ⟨r₂, here, rfl, -⟩ := at_n
      exact (List.getElem?_inj (List.getElem?_eq_some_iff.mp there).1 (q.nodup_replicas key)).mp
        (there.trans here.symm)
  | yielding _ sent _ | renewing _ _ sent _ | ending _ _ sent _ =>
      change (Exchange.commands _)[m]? = _ at at_m
      simp [sent] at at_m

theorem not_asks_ofReaction {g : Grant} {act : Activity Bool}
    (stage : Stage q key signalled (.ofReaction g act)) :
    ¬ (Client.ofReaction g act).Asks t r := by
  rintro ⟨n, ttl, errand⟩
  have asked := List.mem_map_of_mem (f := Errand.command) (List.mem_of_getElem? errand)
  cases act with
  | ended b => cases b <;> cases errand
  | asking x =>
      change _ ∈ x.commands at asked
      cases stage with
      | renewing _ _ sent _ | ending _ _ sent _ => simp [sent, Errand.pending] at asked

theorem not_asks_ofRound {a : Attempt} {x : Exchange (Except Fault Lease)} {os : List Outcome}
    {now : Nat} {t' : String} {signals : List String} {act : Activity (Except Fault Lease)}
    (stage : Stage q key signalled (.trying a x)) (answered : x.Answered os)
    (run : (x.next os).settle now t' = (signals, act)) : ¬ (Client.ofRound now a act).Asks t r := by
  rintro ⟨n, ttl, errand⟩
  obtain ⟨-, ⟨held, rfl, -⟩ | ⟨y, taken, rfl, sent, -⟩ | ⟨f, rfl⟩⟩ :=
    stage.resume_round answered run
  · cases errand
  · have asked : _ ∈ y.commands :=
      List.mem_map_of_mem (f := Errand.command) (List.mem_of_getElem? errand)
    simp [sent, Errand.pending] at asked
  · cases errand

end Stage

/-- Each replica is asked for once under a token. -/
structure Once (log : List LogEntry) (s : Contest) : Prop where
  unasked : ∀ i t r, (s.clients i).Asks t r → ∀ d ∈ log, ¬ ∃ ttl, d.command = .acquire r t ttl
  same : ∀ d ∈ log, ∀ e ∈ log, ∀ t r, (∃ ttl, d.command = .acquire r t ttl) →
    (∃ ttl, e.command = .acquire r t ttl) → d = e

namespace Once

theorem advance (h : Once log s) {i : Nat} {signals : List String} {c : Client}
    (unasked : ∀ t r, c.Asks t r → ∀ d ∈ log, ¬ ∃ ttl, d.command = .acquire r t ttl) :
    Once log (s.advance i signals c) := by
  refine ⟨?_, h.same⟩
  intro j t r asks
  by_cases hj : j = i
  · rw [hj, advance_clients_self] at asks
    exact unasked t r asks
  · rw [advance_clients_of_ne _ _ _ hj] at asks
    exact h.unasked j t r asks

theorem serve (h : Once log s) (orderly : Orderly q key s) {i j : Nat} {c : Command} (f : Fate)
    (o : Outcome) (registry : Registry) (errand : (s.clients i).errands[j]? = some (.pending c)) :
    Once (⟨c, f, o⟩ :: log)
      ({ s with registry := registry }.advance i [] ((s.clients i).note j o)) := by
  have new : ∀ t r, (∃ ttl, c = .acquire r t ttl) → ∀ e ∈ log,
      ¬ ∃ ttl, e.command = .acquire r t ttl := by
    rintro t r ⟨ttl, rfl⟩
    exact h.unasked i t r ⟨j, ttl, errand⟩
  refine ⟨?_, ?_⟩
  · intro k t r asks d member again
    by_cases hk : k = i
    · subst hk
      rw [advance_clients_self] at asks
      obtain ⟨n, ttl, waits⟩ := asks
      obtain ⟨apart, still⟩ := Client.pending_of_note waits
      obtain rfl | old := List.mem_cons.mp member
      · exact apart ((orderly.stage k).errand_unique errand still again ⟨ttl, rfl⟩)
      · exact h.unasked k t r ⟨n, ttl, still⟩ d old again
    · rw [advance_clients_of_ne _ _ _ hk] at asks
      obtain rfl | old := List.mem_cons.mp member
      · have has := (orderly.stage k).token?_of_asks asks
        obtain ⟨ttl, rfl⟩ := again
        exact orderly.foreign has errand hk rfl
      · exact h.unasked k t r asks d old again
  · intro d member e member' t r asked asked'
    obtain rfl | old := List.mem_cons.mp member <;> obtain rfl | old' := List.mem_cons.mp member'
    · rfl
    · exact absurd asked' (new t r asked e old')
    · exact absurd asked (new t r asked' d old)
    · exact h.same d old e old' t r asked asked'

theorem step {m : Move} (h : Once log s) (orderly : Orderly q key s) (balanced : Balanced log s)
    (next : Turn q key s m s') : Once (s.logged m ++ log) s' := by
  have stages := (orderly.step next).stage
  cases next with
  | pass d => exact ⟨h.unasked, h.same⟩
  | @tryLock i validity token signals act idle fresh run =>
      have h' : Once log { s with drawn := token :: s.drawn } := ⟨h.unasked, h.same⟩
      apply h'.advance
      rintro t r asks d member ⟨ttl, asked⟩
      have stage := stages i
      rw [advance_clients_self] at stage
      have has := stage.token?_of_asks asks
      obtain ⟨x, hx, -, -⟩ := settle_tryLock (q.lasting validity) key token s.registry.now
      rw [run] at hx
      cases hx
      obtain rfl := Option.some.inj has
      exact fresh (balanced.drawn d member _ (by rw [asked]; rfl))
  | @serve i j c f errand =>
      rw [Contest.logged_serve errand]
      exact h.serve orderly f _ _ errand
  | @resumeRound i a x os signals act stand answered run =>
      apply h.advance
      intro t r asks
      exact absurd asks ((stand ▸ orderly.stage i).not_asks_ofRound answered run)
  | @resumeLease i g x os signals act stand answered run =>
      have stage := stages i
      rw [advance_clients_self] at stage
      apply h.advance
      intro t r asks
      exact absurd asks stage.not_asks_ofReaction
  | @prompt i g p signals act stand run =>
      have stage := stages i
      rw [advance_clients_self] at stage
      apply h.advance
      intro t r asks
      exact absurd asks stage.not_asks_ofReaction

end Once

theorem LoggedRun.once (h : LoggedRun q key log s) : Once log s := by
  induction h with
  | start =>
      refine ⟨?_, ?_⟩
      · intro i t r _ d member
        cases member
      · intro d member
        cases member
  | step before _ next ih => exact ih.step before.orderly before.balanced next

/-- Once a token is over, those replicas were asked to let go that had been confirmed. Nothing is
left out exactly if the outcome of every command of the round is known; and a replica that was freed
carries the token no more. -/
theorem LoggedRun.leaves_nothing_iff (run : LoggedRun q key log s) {token : String}
    (past : s.IsOver token) :
    (∀ r, Released log token r ↔ Taken log token r) ∧
      ((∀ r, Written log token r → Released log token r) ↔
        ∀ d ∈ log, (∃ r ttl, d.command = .acquire r token ttl) → ¬ d.outcome.IsUnknown) ∧
      ∀ r, (Written log token r → Freed log token r) → s.registry.carries r token = false := by
  have settled : ∀ r, Released log token r ↔ Taken log token r :=
    fun r => (run.balanced.done token past.1 past.2 r).symm
  refine ⟨settled, ⟨?_, ?_⟩, ?_⟩
  · intro complete d member asked unknown
    obtain ⟨r, asked⟩ := asked
    obtain ⟨e, member', asked', taken⟩ :=
      (settled r).mp (complete r ⟨d, member, asked, .inr unknown⟩)
    obtain rfl := run.once.same d member e member' token r asked asked'
    exact Outcome.not_isUnknown_of_taken taken unknown
  · rintro known r ⟨d, member, asked, taken | unknown⟩
    · exact (settled r).mpr ⟨d, member, asked, taken⟩
    · exact absurd unknown (known d member ⟨r, asked⟩)
  · intro r freed
    apply Bool.eq_false_iff.mpr
    intro carries
    obtain ⟨written, unfreed⟩ := run.carried carries
    exact unfreed (freed written)

/-- A lock that was taken and given back leaves its replica free. -/
theorem nothing_left_of_unlock :
    ∃ log s, LoggedRun ⟨⟨"app"⟩, 1, .ofSeconds 1⟩ "l" log s ∧ s.IsOver "token" ∧
      (∀ r, Written log "token" r → Released log "token" r) ∧
      Written log "token" "app:lock:0:l" ∧
      s.registry.carries "app:lock:0:l" "token" = false := by
  have begun : LoggedRun ⟨⟨"app"⟩, 1, .ofSeconds 1⟩ "l" _ _ :=
    .step (m := .tryLock 0 (.ofSeconds 1) "token") .start trivial (.tryLock rfl (by decide) rfl)
  have served := begun.step (m := .serve 0 0 .answered) trivial (.serve _ rfl)
  have holds := served.step (m := .resume 0) trivial
    (.resumeRound rfl (show Exchange.Answered _ [.ok .okay] from rfl) rfl)
  have givenBack := holds.step (m := .prompt 0 .stop) trivial (.prompt rfl rfl)
  have letGo := givenBack.step (m := .serve 0 0 .answered) trivial (.serve _ rfl)
  have ended := letGo.step (m := .resume 0) trivial
    (.resumeLease rfl (show Exchange.Answered _ [.ok (.integer 1)] from rfl) rfl)
  obtain ⟨log, s, run, past, entries⟩ : ∃ log s,
      LoggedRun ⟨⟨"app"⟩, 1, .ofSeconds 1⟩ "l" log s ∧ s.IsOver "token" ∧
        log = [⟨.release "app:lock:0:l" "token", .answered, .ok (.integer 1)⟩,
          ⟨.acquire "app:lock:0:l" "token" 1000, .answered, .ok .okay⟩] := by
    refine ⟨_, _, ended, ⟨List.mem_singleton.mpr rfl, ?_⟩, rfl⟩
    intro i
    cases i <;> exact nofun
  obtain ⟨-, complete, clear⟩ := run.leaves_nothing_iff past
  refine ⟨log, s, run, past, complete.mpr ?_, ?_, clear _ ?_⟩
  · rintro d member - ⟨reason, unknown⟩
    rw [entries] at member
    obtain rfl | member := List.mem_cons.mp member
    · cases unknown
    · obtain rfl := List.mem_singleton.mp member
      cases unknown
  · rw [entries]
    exact ⟨_, List.mem_cons_of_mem _ List.mem_cons_self, ⟨1000, rfl⟩, .inl rfl⟩
  · intro _
    rw [entries]
    exact ⟨_, List.mem_cons_self, rfl, trivial⟩

/-- A round whose only answer is lost ends in a fault, while its replica keeps the token and was not
asked to let go. -/
theorem replica_left_of_lost_answer :
    ∃ log s, LoggedRun ⟨⟨"app"⟩, 1, .ofSeconds 1⟩ "l" log s ∧ s.IsOver "token" ∧
      (∀ d ∈ log, d.fate.Reaches) ∧ Written log "token" "app:lock:0:l" ∧
      ¬ Released log "token" "app:lock:0:l" ∧
      s.registry.carries "app:lock:0:l" "token" = true := by
  have begun : LoggedRun ⟨⟨"app"⟩, 1, .ofSeconds 1⟩ "l" _ _ :=
    .step (m := .tryLock 0 (.ofSeconds 1) "token") .start trivial (.tryLock rfl (by decide) rfl)
  have lost := begun.step (m := .serve 0 0 (.lost (.dropped ""))) ⟨"", rfl⟩ (.serve _ rfl)
  have gaveUp := lost.step (m := .resume 0) trivial
    (.resumeRound rfl (show Exchange.Answered _ [.error (.dropped "")] from rfl) rfl)
  have ended := gaveUp.step (m := .resume 0) trivial
    (.resumeRound rfl (show Exchange.Answered _ [] from rfl) rfl)
  refine ⟨_, _, ended, ⟨List.mem_singleton.mpr rfl, ?_⟩, ?_, ?_, ?_, ?_⟩
  · intro i
    cases i <;> exact nofun
  · intro d member
    obtain rfl := List.mem_singleton.mp member
    trivial
  · refine ⟨_, List.mem_cons_self, ⟨1000, ?_⟩, .inr ⟨"", rfl⟩⟩
    rfl
  · rintro ⟨d, member, released⟩
    obtain rfl := List.mem_singleton.mp member
    cases released
  · decide

end Remote
end CacheFacade
