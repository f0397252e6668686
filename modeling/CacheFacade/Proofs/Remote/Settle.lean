import CacheFacade.Proofs.Remote.Trace
import CacheFacade.Remote.Quorum

/-!
Plans carried out piecemeal. What a plan does by itself takes no time; it stands still where it has
sent commands and waits for what becomes of them. The plans of locks have few such places, and what
follows each of them is said here once: a round ends in a lease or lets go what it took, and a
renewal goes on or gives the signal and lets go. A run over a link goes through the same places.
-/

namespace CacheFacade
namespace Remote

open Happening (exchanged)

/-- A command that was sent, and what became of it so far. -/
structure Errand where
  command : Command
  outcome : Option Outcome

def Errand.pending (c : Command) : Errand := ⟨c, none⟩

/-- Commands on their way, and the plan for what becomes of them. -/
structure Exchange (α : Type) where
  errands : List Errand
  next : List Outcome → Plan α

inductive Activity (α : Type) where
  | ended (a : α)
  | asking (x : Exchange α)

variable {α β : Type}

namespace Plan

/-- Carries a plan out at one instant, up to its end or its next exchange, with the signals that it
gives; `token` is drawn if the plan draws one. A pause is an exchange of no commands. -/
def settle (now : Nat) (token : String) : Plan α → List String × Activity α
  | done a => ([], .ended a)
  | log _ next => next.settle now token
  | cancel t next => (t :: (next.settle now token).1, (next.settle now token).2)
  | ask commands next => ([], .asking ⟨commands.map .pending, next⟩)
  | clock next => (next now).settle now token
  | pause _ next => ([], .asking ⟨[], fun _ => next⟩)
  | draw next => (next token).settle now token

theorem bind_assoc {γ : Type} (p : Plan α) (f : α → Plan β) (g : β → Plan γ) :
    (p.bind f).bind g = p.bind fun a => (f a).bind g := by
  induction p with
  | done a => rfl
  | log l next ih => exact congrArg (Plan.log l) ih
  | cancel t next ih => exact congrArg (Plan.cancel t) ih
  | ask commands next ih => exact congrArg (Plan.ask commands) (funext ih)
  | clock next ih => exact congrArg Plan.clock (funext ih)
  | pause d next ih => exact congrArg (Plan.pause d) ih
  | draw next ih => exact congrArg Plan.draw (funext ih)

theorem settle_logLines (now : Nat) (token : String) (ls : List Line) (f : Unit → Plan α) :
    ((logLines ls).bind f).settle now token = (f ()).settle now token := by
  induction ls with
  | nil => rfl
  | cons l ls ih => exact ih

end Plan

namespace Exchange

def commands (x : Exchange α) : List Command := x.errands.map Errand.command

theorem commands_of_pending {x : Exchange α} {cs : List Command}
    (h : x.errands = cs.map .pending) : x.commands = cs := by
  simp [commands, h, Function.comp_def, Errand.pending]

/-- Every command has an outcome, and these are the outcomes. -/
def Answered (x : Exchange α) (os : List Outcome) : Prop :=
  x.errands.map Errand.outcome = os.map some

def note (x : Exchange α) (i : Nat) (o : Outcome) : Exchange α :=
  { x with errands := x.errands.modify i fun e => { e with outcome := some o } }

@[simp] theorem commands_note (x : Exchange α) (i : Nat) (o : Outcome) :
    (x.note i o).commands = x.commands := by
  apply List.ext_getElem?
  intro j
  simp only [commands, note, List.getElem?_map, List.getElem?_modify]
  by_cases h : i = j
  · cases x.errands[j]? <;> simp [h]
  · cases x.errands[j]? <;> simp [h]

theorem mem_note {x : Exchange α} {i : Nat} {o : Outcome} {e : Errand}
    (h : e ∈ (x.note i o).errands) :
    e ∈ x.errands ∨ ∃ c before, x.errands[i]? = some ⟨c, before⟩ ∧ e = ⟨c, some o⟩ := by
  obtain ⟨j, hj⟩ := List.mem_iff_getElem?.mp h
  simp only [note, List.getElem?_modify] at hj
  by_cases hij : i = j
  · subst hij
    cases he : x.errands[i]? with
    | none => simp [he] at hj
    | some d =>
        right
        refine ⟨d.command, d.outcome, rfl, ?_⟩
        simpa [he] using hj.symm
  · left
    have hMember : x.errands[j]? = some e := by simpa [hij] using hj
    exact List.mem_iff_getElem?.mpr ⟨j, hMember⟩

/-- One more outcome tells of its own command, and of nothing else. -/
theorem exists_note_iff {x : Exchange α} {n : Nat} {c : Command} {o : Outcome}
    (errand : x.errands[n]? = some (.pending c)) {p : Errand → Prop} (blank : ¬ p (.pending c)) :
    (∃ e ∈ (x.note n o).errands, p e) ↔ p ⟨c, some o⟩ ∨ ∃ e ∈ x.errands, p e := by
  constructor
  · rintro ⟨e, member, holds⟩
    obtain old | ⟨c', before, there, rfl⟩ := mem_note member
    · exact .inr ⟨e, old, holds⟩
    · rw [errand] at there
      cases there
      exact .inl holds
  · rintro (holds | ⟨e, member, holds⟩)
    · refine ⟨_, List.mem_iff_getElem?.mpr ⟨n, ?_⟩, holds⟩
      simp [note, errand, Errand.pending]
    · obtain ⟨j, there⟩ := List.mem_iff_getElem?.mp member
      have apart : n ≠ j := by
        rintro rfl
        rw [errand] at there
        cases there
        exact blank holds
      refine ⟨e, List.mem_iff_getElem?.mpr ⟨j, ?_⟩, holds⟩
      simp [note, apart, there]

theorem outcome_of_pending {es : List Errand} {cs : List Command} (h : es = cs.map .pending)
    {e : Errand} (member : e ∈ es) : e.outcome = none := by
  rw [h] at member
  obtain ⟨_, -, rfl⟩ := List.mem_map.mp member
  rfl

theorem Answered.exists_outcome {x : Exchange α} {os : List Outcome} (answered : x.Answered os)
    {e : Errand} (member : e ∈ x.errands) : ∃ o, e.outcome = some o := by
  have told : e.outcome ∈ x.errands.map Errand.outcome := List.mem_map_of_mem member
  rw [answered] at told
  obtain ⟨o, -, same⟩ := List.mem_map.mp told
  exact ⟨o, same.symm⟩

/-- Nothing is asked for after this exchange, and the value is as `p` says. -/
def Closes (p : α → Prop) (x : Exchange α) : Prop :=
  ∀ now token os, ∃ a, (x.next os).settle now token = ([], .ended a) ∧ p a

/-- The exchange of a round of a lock that began at `started`. -/
def Concludes (q : Quorum) (key token : String) (started : Nat)
    (x : Exchange (Except Fault Lease)) : Prop :=
  ∀ now t os,
    let held := Round.held ((q.replicas key).zip (os.map Mark.ofOutcome))
    if q.majority ≤ held.length ∧ now - started < q.validity.nanos then
      (x.next os).settle now t =
        ([], .ended (.ok ⟨q.keys.qualify key, token, held, q.majority, q.validity⟩))
    else
      ∃ y, (x.next os).settle now t = ([], .asking y) ∧
        y.errands = (held.map (.release · token)).map .pending ∧
        y.Closes fun r => ∃ f, r = .error f

/-- The exchange of a renewal of a lease. -/
def Decides (l : Lease) (x : Exchange Bool) : Prop :=
  ∀ now t os,
    if os.countP Lease.agrees < l.majority then
      ∃ y, (x.next os).settle now t = ([l.token], .asking y) ∧
        y.errands = (l.held.map (.release · l.token)).map .pending ∧ y.Closes (· = false)
    else (x.next os).settle now t = ([], .ended true)

end Exchange

theorem settle_letGo (replicas : List String) (token t : String) (now : Nat) (f : Unit → Plan α)
    {p : α → Prop} (rest : ∀ now t, ∃ a, (f ()).settle now t = ([], .ended a) ∧ p a) :
    ∃ y, ((letGo replicas token).bind f).settle now t = ([], .asking y) ∧
      y.errands = (replicas.map (.release · token)).map .pending ∧ y.Closes p := by
  refine ⟨_, rfl, rfl, ?_⟩
  intro now' t' os
  obtain ⟨a, ha, hp⟩ := rest now' t'
  exact ⟨a, by rw [← ha]; exact Plan.settle_logLines now' t' _ f, hp⟩

theorem verdict_acquired_iff (r : Round) (majority : Nat) (validity : Span) (elapsed : Nat)
    (held : List String) :
    r.verdict majority validity elapsed = .acquired held ↔
      (majority ≤ r.held.length ∧ elapsed < validity.nanos) ∧ held = r.held := by
  unfold Round.verdict
  split
  · rename_i h
    simp [h, eq_comm]
  · rename_i h
    split
    · split <;> simp [h]
    · simp [h]

theorem settle_tryLock (q : Quorum) (key token : String) (now : Nat) :
    ∃ x, (q.tryLock key).settle now token = ([], .asking x) ∧
      x.errands =
        ((q.replicas key).map (.acquire · token (milliseconds q.validity))).map .pending ∧
      x.Concludes q key token now := by
  refine ⟨_, rfl, rfl, ?_⟩
  intro now' t os held
  simp only [bind, pure, Plan.bind, Plan.bind_assoc, Plan.settle_logLines, Plan.settle]
  by_cases hTake : q.majority ≤ held.length ∧ now' - now < q.validity.nanos
  · rw [if_pos hTake, (verdict_acquired_iff _ _ _ _ held).mpr ⟨hTake, rfl⟩]
    rfl
  · rw [if_neg hTake]
    cases hVerdict : Round.verdict ((q.replicas key).zip (os.map Mark.ofOutcome)) q.majority
        q.validity (now' - now) with
    | acquired h => exact absurd ((verdict_acquired_iff _ _ _ _ h).mp hVerdict).1 hTake
    | busy =>
        simp only [Plan.bind_assoc]
        apply settle_letGo held token t now'
        intro _ _
        exact ⟨.error .notLocked, rfl, .notLocked, rfl⟩
    | failed f =>
        simp only [Plan.bind_assoc]
        apply settle_letGo held token t now'
        intro _ _
        exact ⟨.error f, rfl, f, rfl⟩

theorem settle_finish (l : Lease) (now : Nat) (t : String) :
    ∃ y, (l.finish.bind fun _ => .done false).settle now t = ([l.token], .asking y) ∧
      y.errands = (l.held.map (.release · l.token)).map .pending ∧ y.Closes (· = false) := by
  obtain ⟨y, hy, shape⟩ := settle_letGo (p := (· = false)) l.held l.token t now
    (fun _ => (Plan.logLine (.done s!"Redis UNLOCK {l.name}")).bind fun _ => .done false)
    fun _ _ => ⟨false, rfl, rfl⟩
  refine ⟨y, ?_, shape⟩
  simp only [Lease.finish, bind, pure, Plan.bind, Plan.bind_assoc, Plan.settle, hy]

theorem settle_react_stop (l : Lease) (now : Nat) (t : String) :
    ∃ y, (l.react .stop).settle now t = ([l.token], .asking y) ∧
      y.errands = (l.held.map (.release · l.token)).map .pending ∧ y.Closes (· = false) :=
  settle_finish l now t

theorem settle_react_due (l : Lease) (now : Nat) (t : String) :
    ∃ x, (l.react .due).settle now t = ([], .asking x) ∧
      x.errands =
        (l.held.map (.extend · l.token (milliseconds l.validity))).map .pending ∧
      x.Decides l := by
  refine ⟨_, rfl, rfl, ?_⟩
  intro now' t' os
  simp only [bind, pure, Plan.bind]
  by_cases hLost : os.countP Lease.agrees < l.majority
  · rw [if_pos hLost, if_pos hLost]
    exact settle_finish l now' t'
  · rw [if_neg hLost, if_neg hLost]
    rfl

namespace Plan

variable {σ : Type} {p : Plan α}

/-- A plan that draws no token and makes no pause. -/
def Direct : Plan α → Prop
  | done _ => True
  | log _ next | cancel _ next => next.Direct
  | ask _ next => ∀ os, (next os).Direct
  | clock next => ∀ now, (next now).Direct
  | pause _ _ | draw _ => False

theorem Direct.bind {f : α → Plan β} (h : p.Direct) (rest : ∀ a, (f a).Direct) :
    (p.bind f).Direct := by
  induction p with
  | done a => exact rest a
  | log l next ih => exact ih h
  | cancel t next ih => exact ih h
  | ask commands next ih => exact fun os => ih os (h os)
  | clock next ih => exact fun now => ih now (h now)
  | pause d next ih => exact h.elim
  | draw next ih => exact h.elim

theorem direct_logLines (ls : List Line) : (logLines ls).Direct := by
  induction ls with
  | nil => trivial
  | cons l ls ih => exact ih

/-- What a plan that is run from `s` comes to, as it is settled there. After an exchange it goes on
with the rest of the plan, which is settled in turn. -/
def Follows (link : Link σ) (s : σ) (p : Plan α) : List String × Activity α → Prop
  | (signals, .ended a) => (p.run link s).value = a ∧ p.trace link s = signals.map .cancelled
  | (signals, .asking x) =>
    ∃ os s', link.exchange x.commands s = (os, s') ∧ (x.next os).Direct ∧
      (p.run link s).value = ((x.next os).run link s').value ∧
      p.trace link s =
        signals.map .cancelled ++ (exchanged x.commands os ++ (x.next os).trace link s')

/-- To run a plan over a link is to settle it, exchange after exchange. -/
theorem Direct.follows (h : p.Direct) (link : Link σ) (s : σ) (token : String) :
    p.Follows link s (p.settle (link.now s) token) := by
  induction p with
  | done a => exact ⟨rfl, rfl⟩
  | log l next ih => exact ih h
  | cancel t next ih =>
      have follows := ih h
      simp only [settle]
      generalize next.settle (link.now s) token = settled at follows
      obtain ⟨signals, a | x⟩ := settled
      · obtain ⟨value, traced⟩ := follows
        exact ⟨value, congrArg (Happening.cancelled t :: ·) traced⟩
      · obtain ⟨os, s', exchange, direct, value, traced⟩ := follows
        exact ⟨os, s', exchange, direct, value, congrArg (Happening.cancelled t :: ·) traced⟩
  | ask commands next ih =>
      have same : (⟨commands.map .pending, next⟩ : Exchange α).commands = commands :=
        Exchange.commands_of_pending rfl
      simp only [settle, Follows, same]
      exact ⟨_, _, rfl, h _, rfl, rfl⟩
  | clock next ih => exact ih _ (h _)
  | pause d next ih => exact h.elim
  | draw next ih => exact h.elim

end Plan

theorem Exchange.Closes.over {σ : Type} {x : Exchange α} {P : α → Prop} (closes : x.Closes P)
    {os : List Outcome} (direct : (x.next os).Direct) (link : Link σ) (s : σ) :
    P ((x.next os).run link s).value ∧ (x.next os).trace link s = [] := by
  obtain ⟨a, settled, holds⟩ := closes (link.now s) "" os
  have follows := direct.follows link s ""
  rw [settled] at follows
  exact ⟨follows.1.symm ▸ holds, follows.2⟩

theorem direct_react (l : Lease) (p : Prompt) : (l.react p).Direct := by
  have letsGo : (letGo l.held l.token).Direct := fun _ => Plan.direct_logLines _
  have finish : l.finish.Direct := letsGo.bind fun _ => trivial
  cases p with
  | stop => exact finish.bind fun _ => trivial
  | due =>
      intro os
      simp only [bind, pure, Plan.bind]
      split
      · exact finish.bind fun _ => trivial
      · trivial

end Remote
end CacheFacade
