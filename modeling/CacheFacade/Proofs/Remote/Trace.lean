import CacheFacade.Remote.Plan

/-!
The trace of a plan over a link: the commands that it asks for, each with what becomes of it, and the
signals that it gives. A command for which no connection was had is in the trace, but was not sent;
without such commands, a trace is what the events of a run show beside the log. What a plan asks for
and what it yields are told from the plan alone, for all links.
-/

namespace CacheFacade
namespace Remote

/-- What a plan does besides logging. -/
inductive Happening where
  | asked (c : Command) (o : Outcome)
  | cancelled (token : String)

namespace Happening

def event? : Happening → Option Event
  | asked c o => if o.isSent then some (.sent c) else none
  | cancelled token => some (.cancelled token)

/-- The token of a lock that a happening is about. -/
def token? : Happening → Option String
  | asked c _ => c.token?
  | cancelled token => some token

/-- Commands that were asked for at the same time, with what became of them. -/
def exchanged (commands : List Command) (os : List Outcome) : List Happening :=
  List.zipWith asked commands os

theorem mem_exchanged {commands : List Command} {os : List Outcome} {h : Happening}
    (member : h ∈ exchanged commands os) : ∃ c ∈ commands, ∃ o, h = asked c o := by
  rw [exchanged, ← List.map_uncurry_zip_eq_zipWith] at member
  obtain ⟨⟨c, o⟩, pair, rfl⟩ := List.mem_map.mp member
  exact ⟨c, (List.of_mem_zip pair).1, o, rfl⟩

theorem filterMap_exchanged (commands : List Command) (os : List Outcome) :
    (exchanged commands os).filterMap event? = sentOf commands os := by
  induction commands generalizing os with
  | nil => rfl
  | cons c commands ih =>
      cases os with
      | nil => rfl
      | cons o os =>
          rw [exchanged, List.zipWith_cons_cons, List.filterMap_cons, sentOf, ← ih]
          cases sent : o.isSent <;> simp [event?, sent, exchanged]

end Happening

namespace Plan

variable {α β σ : Type}

def trace (link : Link σ) : Plan α → σ → List Happening
  | done _, _ => []
  | log _ next, s => next.trace link s
  | cancel token next, s => .cancelled token :: next.trace link s
  | ask commands next, s =>
    let (os, s) := link.exchange commands s
    Happening.exchanged commands os ++ (next os).trace link s
  | clock next, s => (next (link.now s)).trace link s
  | pause d next, s => next.trace link (link.pass d s)
  | draw next, s =>
    let (token, s) := link.draw s
    (next token).trace link s

theorem run_bind (link : Link σ) (p : Plan α) (f : α → Plan β) (s : σ) :
    (p.bind f).run link s =
      ((f (p.run link s).value).run link (p.run link s).state).after (p.run link s).events := by
  induction p generalizing s with
  | done a => rfl
  | log l next ih => simp [bind, run, ih, Run.after]
  | cancel token next ih => simp [bind, run, ih, Run.after]
  | ask commands next ih => simp [bind, run, ih, Run.after]
  | clock next ih => exact ih _ s
  | pause d next ih => exact ih _
  | draw next ih => exact ih _ _

theorem value_bind (link : Link σ) (p : Plan α) (f : α → Plan β) (s : σ) :
    ((p.bind f).run link s).value =
      ((f (p.run link s).value).run link (p.run link s).state).value := by
  rw [run_bind]
  rfl

theorem state_bind (link : Link σ) (p : Plan α) (f : α → Plan β) (s : σ) :
    ((p.bind f).run link s).state =
      ((f (p.run link s).value).run link (p.run link s).state).state := by
  rw [run_bind]
  rfl

theorem trace_bind (link : Link σ) (p : Plan α) (f : α → Plan β) (s : σ) :
    (p.bind f).trace link s =
      p.trace link s ++ (f (p.run link s).value).trace link (p.run link s).state := by
  induction p generalizing s with
  | done a => rfl
  | log l next ih => exact ih s
  | cancel token next ih => exact congrArg (.cancelled token :: ·) (ih s)
  | ask commands next ih => simp [bind, trace, run, ih, Run.after]
  | clock next ih => exact ih _ s
  | pause d next ih => exact ih _
  | draw next ih => exact ih _ _

theorem filter_sentOf (commands : List Command) (os : List Outcome) :
    (sentOf commands os).filter (·.line?.isNone) = sentOf commands os := by
  rw [← Happening.filterMap_exchanged, List.filter_eq_self]
  intro e member
  obtain ⟨h, -, same⟩ := List.mem_filterMap.mp member
  cases h with
  | asked c o =>
      rw [Happening.event?] at same
      split at same
      · cases same
        rfl
      · cases same
  | cancelled token =>
      cases same
      rfl

/-- The trace of a plan is what its run shows beside the log. -/
theorem events_trace (link : Link σ) (p : Plan α) (s : σ) :
    (p.trace link s).filterMap Happening.event? =
      (p.run link s).events.filter (·.line?.isNone) := by
  induction p generalizing s with
  | done a => rfl
  | log l next ih => exact ih s
  | cancel token next ih => exact congrArg (.cancelled token :: ·) (ih s)
  | ask commands next ih =>
      simp only [trace, run, Run.after, List.filterMap_append, List.filter_append,
        Happening.filterMap_exchanged, filter_sentOf, ih]
  | clock next ih => exact ih _ s
  | pause d next ih => exact ih _
  | draw next ih => exact ih _ _

/-- The commands that a run sends are those of the trace for which a connection was had. -/
theorem commands_run (link : Link σ) (p : Plan α) (s : σ) :
    (p.run link s).commands =
      ((p.trace link s).filterMap Happening.event?).filterMap Event.command? := by
  rw [events_trace, List.filterMap_filter, Run.commands]
  congr 1
  funext e
  cases e <;> rfl

/-- A run gives the signals of its trace. -/
theorem mem_signals_run (link : Link σ) (p : Plan α) (s : σ) (token : String) :
    token ∈ (p.run link s).events.filterMap Event.token? ↔ .cancelled token ∈ p.trace link s := by
  have shown : (p.run link s).events.filterMap Event.token? =
      ((p.trace link s).filterMap Happening.event?).filterMap Event.token? := by
    rw [events_trace, List.filterMap_filter]
    congr 1
    funext e
    cases e <;> rfl
  rw [shown, List.filterMap_filterMap, List.mem_filterMap]
  constructor
  · rintro ⟨h, member, given⟩
    cases h with
    | asked c o =>
        rw [Happening.event?] at given
        split at given
        · cases given
        · cases given
    | cancelled t =>
        cases given
        exact member
  · exact fun member => ⟨_, member, rfl⟩

variable {P : Command → Prop} {Q : α → Prop} {p : Plan α}

/-- Whatever becomes of earlier commands, a plan asks only for commands of a kind. -/
def Asks (P : Command → Prop) : Plan α → Prop
  | done _ => True
  | log _ next | cancel _ next | pause _ next => next.Asks P
  | ask commands next => (∀ c ∈ commands, P c) ∧ ∀ os, (next os).Asks P
  | clock next => ∀ now, (next now).Asks P
  | draw next => ∀ token, (next token).Asks P

theorem Asks.bind {f : α → Plan β} (h : p.Asks P) (rest : ∀ a, (f a).Asks P) :
    (p.bind f).Asks P := by
  induction p with
  | done a => exact rest a
  | log l next ih | cancel t next ih | pause d next ih => exact ih h
  | ask commands next ih => exact ⟨h.1, fun os => ih os (h.2 os)⟩
  | clock next ih => exact fun now => ih now (h now)
  | draw next ih => exact fun token => ih token (h token)

theorem Asks.of_mem_trace {link : Link σ} {s : σ} (h : p.Asks P) {c : Command} {o : Outcome}
    (asked : .asked c o ∈ p.trace link s) : P c := by
  induction p generalizing s with
  | done a => cases asked
  | log l next ih => exact ih h asked
  | cancel t next ih =>
      obtain same | later := List.mem_cons.mp asked
      · cases same
      · exact ih h later
  | ask commands next ih =>
      obtain now | later := List.mem_append.mp asked
      · obtain ⟨d, member, o', same⟩ := Happening.mem_exchanged now
        cases same
        exact h.1 c member
      · exact ih _ (h.2 _) later
  | clock next ih => exact ih _ (h _) asked
  | pause d next ih => exact ih h asked
  | draw next ih => exact ih _ (h _) asked

theorem Asks.of_mem_commands {link : Link σ} {s : σ} (h : p.Asks P) {c : Command}
    (sent : c ∈ (p.run link s).commands) : P c := by
  rw [commands_run, List.filterMap_filterMap] at sent
  obtain ⟨x, member, shown⟩ := List.mem_filterMap.mp sent
  cases x with
  | asked d o =>
      rw [Happening.event?] at shown
      split at shown
      · cases shown
        exact h.of_mem_trace member
      · cases shown
  | cancelled token => cases shown

/-- Whatever becomes of its commands, a plan ends in a value of a kind. -/
def Yields (Q : α → Prop) : Plan α → Prop
  | done a => Q a
  | log _ next | cancel _ next | pause _ next => next.Yields Q
  | ask _ next => ∀ os, (next os).Yields Q
  | clock next => ∀ now, (next now).Yields Q
  | draw next => ∀ token, (next token).Yields Q

theorem Yields.bind {R : β → Prop} {f : α → Plan β} (h : p.Yields Q)
    (rest : ∀ a, Q a → (f a).Yields R) : (p.bind f).Yields R := by
  induction p with
  | done a => exact rest a h
  | log l next ih | cancel t next ih | pause d next ih => exact ih h
  | ask commands next ih => exact fun os => ih os (h os)
  | clock next ih => exact fun now => ih now (h now)
  | draw next ih => exact fun token => ih token (h token)

theorem Yields.mono {R : α → Prop} (h : p.Yields Q) (sub : ∀ a, Q a → R a) : p.Yields R := by
  induction p with
  | done a => exact sub a h
  | log l next ih | cancel t next ih | pause d next ih => exact ih h
  | ask commands next ih => exact fun os => ih os (h os)
  | clock next ih => exact fun now => ih now (h now)
  | draw next ih => exact fun token => ih token (h token)

theorem yields_any (p : Plan α) : p.Yields fun _ => True := by
  induction p with
  | done a => trivial
  | log l next ih | cancel t next ih | pause d next ih => exact ih
  | ask commands next ih => exact ih
  | clock next ih => exact ih
  | draw next ih => exact ih

theorem Yields.value (h : p.Yields Q) (link : Link σ) (s : σ) : Q (p.run link s).value := by
  induction p generalizing s with
  | done a => exact h
  | log l next ih | cancel t next ih => exact ih h s
  | pause d next ih => exact ih h _
  | ask commands next ih => exact ih _ (h _) _
  | clock next ih => exact ih _ (h _) s
  | draw next ih => exact ih _ (h _) _

/-- A plan that neither asks for a command nor gives a signal. -/
def Quiet : Plan α → Prop
  | done _ => True
  | log _ next | pause _ next => next.Quiet
  | clock next => ∀ now, (next now).Quiet
  | draw next => ∀ token, (next token).Quiet
  | ask _ _ | cancel _ _ => False

theorem Quiet.bind {f : α → Plan β} (h : p.Quiet) (rest : ∀ a, (f a).Quiet) :
    (p.bind f).Quiet := by
  induction p with
  | done a => exact rest a
  | log l next ih | pause d next ih => exact ih h
  | clock next ih => exact fun now => ih now (h now)
  | draw next ih => exact fun token => ih token (h token)
  | ask commands next ih => exact h.elim
  | cancel t next ih => exact h.elim

theorem quiet_logLines (ls : List Line) : (logLines ls).Quiet := by
  induction ls with
  | nil => trivial
  | cons l ls ih => exact ih

theorem Quiet.asks (h : p.Quiet) : p.Asks P := by
  induction p with
  | done a => trivial
  | log l next ih | pause d next ih => exact ih h
  | clock next ih => exact fun now => ih now (h now)
  | draw next ih => exact fun token => ih token (h token)
  | ask commands next ih => exact h.elim
  | cancel t next ih => exact h.elim

theorem Quiet.trace_eq_nil (h : p.Quiet) (link : Link σ) (s : σ) : p.trace link s = [] := by
  induction p generalizing s with
  | done a => rfl
  | log l next ih => exact ih h s
  | pause d next ih => exact ih h _
  | clock next ih => exact ih _ (h _) s
  | draw next ih => exact ih _ (h _) _
  | ask commands next ih => exact h.elim
  | cancel t next ih => exact h.elim

end Plan
end Remote
end CacheFacade
