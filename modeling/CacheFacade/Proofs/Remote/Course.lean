import CacheFacade.Proofs.Remote.Settle
import CacheFacade.Remote.Session

/-!
The course of a lease. It goes on through every renewal on which a majority agrees, whatever the
other replicas answer, and ends at the first one on which too few do, or when the lock is given back.
At its end the signal is given first, each replica is then released once, and nothing is asked for
after that. A session keeps its leases apart, so this holds of each of them, whatever else the
session does meanwhile.
-/

namespace CacheFacade
namespace Remote

open Happening (exchanged)

variable {σ α : Type}

namespace Lease

/-- The commands of a renewal, one for each replica. -/
def extensions (l : Lease) : List Command :=
  l.held.map (.extend · l.token (milliseconds l.validity))

def releases (l : Lease) : List Command := l.held.map (.release · l.token)

/-- What happens in the course of a lease, prompt after prompt, and whether the lease goes on. There
is an outcome for each replica, but no assumption about it. -/
inductive Course (l : Lease) : List Prompt → List Happening → Bool → Prop
  | begun : Course l [] [] true
  | renewed {prompts : List Prompt} {past : List Happening} (before : Course l prompts past true)
      (os : List Outcome) (all : os.length = l.held.length)
      (enough : l.majority ≤ os.countP agrees) :
      Course l (prompts ++ [.due]) (past ++ exchanged l.extensions os) true
  | lost {prompts : List Prompt} {past : List Happening} (before : Course l prompts past true)
      (os : List Outcome) (all : os.length = l.held.length) (few : os.countP agrees < l.majority)
      (gone : List Outcome) (each : gone.length = l.held.length) :
      Course l (prompts ++ [.due])
        (past ++ (exchanged l.extensions os ++ .cancelled l.token :: exchanged l.releases gone)) false
  | stopped {prompts : List Prompt} {past : List Happening} (before : Course l prompts past true)
      (gone : List Outcome) (each : gone.length = l.held.length) :
      Course l (prompts ++ [.stop])
        (past ++ .cancelled l.token :: exchanged l.releases gone) false
  /-- Nothing happens after the end. -/
  | ended {prompts : List Prompt} {past : List Happening} (before : Course l prompts past false)
      (p : Prompt) : Course l (prompts ++ [p]) past false

end Lease

theorem trace_letGo (replicas : List String) (token : String) (link : Link σ) (s : σ) :
    (letGo replicas token).trace link s =
      exchanged (replicas.map (.release · token))
        (link.exchange (replicas.map (.release · token)) s).1 := by
  change exchanged _ _ ++ (Plan.logLines _).trace link _ = _
  rw [(Plan.quiet_logLines _).trace_eq_nil, List.append_nil]

namespace Lease

theorem follows_releases {l : Lease} {p : Plan Bool} {link : Link σ} {s : σ} {y : Exchange Bool}
    (follows : p.Follows link s ([l.token], .asking y))
    (errands : y.errands = l.releases.map .pending) (closes : y.Closes (· = false)) :
    (p.run link s).value = false ∧ ∃ gone : List Outcome, gone.length = l.held.length ∧
      p.trace link s = .cancelled l.token :: exchanged l.releases gone := by
  obtain ⟨gone, s', exchange, direct, value, traced⟩ := follows
  rw [Exchange.commands_of_pending errands] at exchange traced
  obtain ⟨ended, silent⟩ := closes.over direct link s'
  refine ⟨value.trans ended, gone, ?_, ?_⟩
  · have counted := link.length_exchange l.releases s
    rwa [exchange, releases, List.length_map] at counted
  · rw [traced, silent, List.append_nil]
    rfl

theorem run_stop (l : Lease) (link : Link σ) (s : σ) :
    ((l.react .stop).run link s).value = false ∧
      ∃ gone : List Outcome, gone.length = l.held.length ∧
        (l.react .stop).trace link s = .cancelled l.token :: exchanged l.releases gone := by
  obtain ⟨y, settled, errands, closes⟩ := settle_react_stop l (link.now s) l.token
  have follows := (direct_react l .stop).follows link s l.token
  rw [settled] at follows
  exact follows_releases follows errands closes

/-- What a lease that goes on makes of a prompt. -/
theorem Course.react {l : Lease} {prompts : List Prompt} {past : List Happening}
    (before : l.Course prompts past true) (p : Prompt) (link : Link σ) (s : σ) :
    l.Course (prompts ++ [p]) (past ++ (l.react p).trace link s) ((l.react p).run link s).value := by
  cases p with
  | stop =>
      obtain ⟨value, gone, each, traced⟩ := run_stop l link s
      rw [value, traced]
      exact .stopped before gone each
  | due =>
      have follows := (direct_react l .due).follows link s l.token
      obtain ⟨x, settled, errands, decides⟩ := settle_react_due l (link.now s) l.token
      rw [settled] at follows
      obtain ⟨os, s', exchange, direct, value, traced⟩ := follows
      rw [Exchange.commands_of_pending errands] at exchange traced
      have all : os.length = l.held.length := by
        simpa [exchange] using
          link.length_exchange (l.held.map (.extend · l.token (milliseconds l.validity))) s
      have rest := direct.follows link s' l.token
      have decided := decides (link.now s') l.token os
      rw [value, traced]
      by_cases few : os.countP agrees < l.majority
      · rw [if_pos few] at decided
        obtain ⟨y, settled', errands', closes⟩ := decided
        rw [settled'] at rest
        obtain ⟨ended, gone, each, finished⟩ := follows_releases rest errands' closes
        rw [ended, finished]
        exact .lost before os all few gone each
      · rw [if_neg few] at decided
        rw [decided] at rest
        obtain ⟨going, silent⟩ := rest
        rw [going, silent, List.map_nil, List.append_nil]
        exact .renewed before os all (Nat.le_of_not_lt few)

theorem Course.token {l : Lease} {prompts : List Prompt} {past : List Happening} {going : Bool}
    (course : l.Course prompts past going) : ∀ h ∈ past, h.token? = some l.token := by
  have extended : ∀ os, ∀ h ∈ exchanged l.extensions os, h.token? = some l.token := by
    intro os h member
    obtain ⟨c, known, o, rfl⟩ := Happening.mem_exchanged member
    obtain ⟨r, -, rfl⟩ := List.mem_map.mp known
    rfl
  have released : ∀ os, ∀ h ∈ Happening.cancelled l.token :: exchanged l.releases os,
      h.token? = some l.token := by
    intro os h member
    obtain rfl | later := List.mem_cons.mp member
    · rfl
    · obtain ⟨c, known, o, rfl⟩ := Happening.mem_exchanged later
      obtain ⟨r, -, rfl⟩ := List.mem_map.mp known
      rfl
  induction course with
  | begun => exact fun h member => absurd member List.not_mem_nil
  | renewed before os all enough ih =>
      intro h member
      exact (List.mem_append.mp member).elim (ih h) (extended os h)
  | lost before os all few gone each ih =>
      intro h member
      obtain old | new := List.mem_append.mp member
      · exact ih h old
      · exact (List.mem_append.mp new).elim (extended os h) (released gone h)
  | stopped before gone each ih =>
      intro h member
      exact (List.mem_append.mp member).elim (ih h) (released gone h)
  | ended before p ih => exact ih

theorem not_mem_exchanged {token : String} {commands : List Command} {os : List Outcome} :
    Happening.cancelled token ∉ exchanged commands os := by
  intro member
  obtain ⟨c, -, o, same⟩ := Happening.mem_exchanged member
  cases same

theorem Course.cancelled_iff {l : Lease} {prompts : List Prompt} {past : List Happening}
    {going : Bool} (course : l.Course prompts past going) :
    .cancelled l.token ∈ past ↔ going = false := by
  induction course with
  | begun => simp
  | renewed before os all enough ih => simpa [not_mem_exchanged] using ih
  | lost before os all few gone each ih => simp
  | stopped before gone each ih => simp
  | ended before p ih => exact ih

end Lease

/-- What happens about a token. -/
def Happening.about (token : String) (hs : List Happening) : List Happening :=
  hs.filter fun h => h.token? = some token

namespace Happening

theorem about_of_all {token : String} {hs : List Happening}
    (all : ∀ h ∈ hs, h.token? = some token) : about token hs = hs :=
  List.filter_eq_self.mpr fun h member => decide_eq_true (all h member)

theorem about_of_none {token : String} {hs : List Happening}
    (none : ∀ h ∈ hs, h.token? ≠ some token) : about token hs = [] :=
  List.filter_eq_nil_iff.mpr fun h member same => none h member (of_decide_eq_true same)

end Happening

namespace Session

variable {link : Link σ} {l : Lease}

/-- What happens when a lock is given back. -/
def givenBack (link : Link σ) (token : String) (s : Session σ) : List Happening :=
  match s.tended.find? fun t => t.lease.token == token with
  | none => []
  | some t => (t.lease.react .stop).trace link s.world

/-- What a session does, with the prompts that concern one token, all that happens, and the events of
its runs. Work of other kinds does not use the token. -/
inductive SessionRun (link : Link σ) (token : String) (s : Session σ) :
    List Prompt → List Happening → List Event → Session σ → Prop
  | start : SessionRun link token s [] [] [] s
  | work {prompts : List Prompt} {past : List Happening} {events : List Event} {s' : Session σ}
      {α : Type} (before : SessionRun link token s prompts past events s') (p : Plan α)
      (foreign : ∀ h ∈ p.trace link s'.world, h.token? ≠ some token) :
      SessionRun link token s prompts (past ++ p.trace link s'.world)
        (events ++ (s'.perform link p).events) (s'.perform link p).state
  | takeLock {prompts : List Prompt} {past : List Happening} {events : List Event} {s' : Session σ}
      (before : SessionRun link token s prompts past events s') (p : Plan (Except Fault Lease))
      (foreign : ∀ h ∈ p.trace link s'.world, h.token? ≠ some token)
      (other : ∀ l, (p.run link s'.world).value = .ok l → l.token ≠ token) :
      SessionRun link token s prompts (past ++ p.trace link s'.world)
        (events ++ (s'.takeLock link p).events) (s'.takeLock link p).state
  | moveTo {prompts : List Prompt} {past : List Happening} {events : List Event} {s' : Session σ}
      (before : SessionRun link token s prompts past events s') (time : Nat) :
      SessionRun link token s prompts past events (s'.moveTo link time)
  | renew {prompts : List Prompt} {past : List Happening} {events : List Event} {s' : Session σ}
      (before : SessionRun link token s prompts past events s') (t : Tended)
      (tended : t ∈ s'.tended) :
      SessionRun link token s (prompts ++ if t.lease.token = token then [.due] else [])
        (past ++ (t.lease.react .due).trace link (s'.moveTo link t.due).world)
        (events ++ (s'.renew link t).events) (s'.renew link t).state
  | giveBack {prompts : List Prompt} {past : List Happening} {events : List Event} {s' : Session σ}
      (before : SessionRun link token s prompts past events s') (given : String) :
      SessionRun link token s (prompts ++ if given = token then [.stop] else [])
        (past ++ s'.givenBack link given) (events ++ (s'.giveBack link given).events)
        (s'.giveBack link given).state

/-- The leases that a session looks after. -/
def leases (s : Session σ) : List Lease := s.tended.map Tended.lease

/-- How a session stands to a lease: it looks after it while it goes on, and no longer. -/
structure Stands (l : Lease) (s : Session σ) (going : Bool) : Prop where
  cancelled : s.isCancelled l.token = !going
  /-- No other lease has the token. -/
  sole : ∀ k ∈ s.leases, k.token = l.token → k = l
  tended : l ∈ s.leases ↔ going = true

theorem mem_leases_forget {token : String} {s : Session σ} {k : Lease} :
    k ∈ (s.forget token).leases ↔ k ∈ s.leases ∧ k.token ≠ token := by
  simp only [leases, forget, List.mem_map, List.mem_filter, bne_iff_ne, ne_eq]
  constructor
  · rintro ⟨t, ⟨tended, other⟩, rfl⟩
    exact ⟨⟨t, tended, rfl⟩, other⟩
  · rintro ⟨⟨t, tended, rfl⟩, other⟩
    exact ⟨t, ⟨tended, other⟩, rfl⟩

theorem isCancelled_perform (p : Plan α) (s : Session σ) (token : String) :
    (s.perform link p).state.isCancelled token = true ↔
      s.isCancelled token = true ∨ .cancelled token ∈ p.trace link s.world := by
  rw [← Plan.mem_signals_run]
  simp [isCancelled, perform, Run.map]

theorem about_react (p : Prompt) (world : σ) :
    Happening.about l.token ((l.react p).trace link world) = (l.react p).trace link world :=
  Happening.about_of_all (Lease.Course.begun.react p link world).token

theorem foreign_of_react {p : Prompt} {world : σ} {token : String} (other : l.token ≠ token) :
    ∀ h ∈ (l.react p).trace link world, h.token? ≠ some token := by
  intro h member same
  have own := (Lease.Course.begun.react p link world).token h member
  exact other (Option.some_inj.mp (own.symm.trans same))

namespace Stands

variable {s : Session σ} {going : Bool}

/-- Only signals and leases matter. -/
theorem congr {s' : Session σ} (h : s.Stands l going)
    (cancelled : s'.isCancelled l.token = s.isCancelled l.token) (leases : s'.leases = s.leases) :
    s'.Stands l going :=
  ⟨cancelled.trans h.cancelled, leases ▸ h.sole, leases ▸ h.tended⟩

theorem perform (h : s.Stands l going) {p : Plan α}
    (foreign : ∀ x ∈ p.trace link s.world, x.token? ≠ some l.token) :
    (s.perform link p).state.Stands l going := by
  refine h.congr ?_ rfl
  rw [Bool.eq_iff_iff, isCancelled_perform, or_iff_left]
  exact fun given => foreign _ given rfl

theorem forget (h : s.Stands l going) {token : String} (other : token ≠ l.token) :
    (s.forget token).Stands l going := by
  refine ⟨h.cancelled, ?_, ?_⟩
  · exact fun k member => h.sole k (mem_leases_forget.mp member).1
  · rw [mem_leases_forget, and_iff_left (Ne.symm other)]
    exact h.tended

theorem tend (h : s.Stands l going) {k : Lease} (other : k.token ≠ l.token) :
    (s.tend link k).Stands l going := by
  rw [Session.tend]
  cases Clock.after? (link.now s.world) k.period with
  | none =>
      refine h.congr ?_ rfl
      simp [isCancelled, Ne.symm other]
  | some due =>
      have member : ∀ x, x ∈ (s.tended ++ [Tended.mk k due]).map Tended.lease ↔
          x ∈ s.leases ∨ x = k := by
        simp only [List.map_append, List.mem_append, List.map_singleton, List.mem_singleton, leases,
          implies_true]
      refine ⟨h.cancelled, ?_, ?_⟩
      · intro x known same
        obtain old | rfl := (member x).mp known
        · exact h.sole x old same
        · exact absurd same other
      · refine (member l).trans ((or_iff_left ?_).trans h.tended)
        rintro rfl
        exact other rfl

theorem isCancelled_react (h : s.Stands l true) (p : Prompt) :
    (s.perform link (l.react p)).state.isCancelled l.token =
      !((l.react p).run link s.world).value := by
  have course := Lease.Course.begun.react (l := l) p link s.world
  have fresh : ¬ s.isCancelled l.token = true := by
    rw [h.cancelled]
    exact Bool.false_ne_true
  rw [Bool.eq_iff_iff, isCancelled_perform, or_iff_right fresh, Bool.not_eq_true']
  exact course.cancelled_iff

theorem react_off (h : s.Stands l true) {p : Prompt}
    (off : ((l.react p).run link s.world).value = false) :
    ((s.perform link (l.react p)).state.forget l.token).Stands l false := by
  refine ⟨?_, ?_, ?_⟩
  · exact (h.isCancelled_react p).trans (congrArg _ off)
  · exact fun k member => h.sole k (mem_leases_forget.mp member).1
  · exact iff_of_false (fun member => (mem_leases_forget.mp member).2 rfl) Bool.false_ne_true

theorem giveBack (h : s.Stands l going) {prompts : List Prompt} {past : List Happening}
    (course : l.Course prompts past going) (given : String) :
    ∃ going', l.Course (prompts ++ if given = l.token then [.stop] else [])
        (past ++ Happening.about l.token (s.givenBack link given)) going' ∧
      (s.giveBack link given).state.Stands l going' := by
  rw [givenBack, Session.giveBack]
  cases found : s.tended.find? fun t => t.lease.token == given with
  | none =>
      have absent : ∀ t ∈ s.tended, t.lease.token ≠ given := by
        simpa using found
      refine ⟨going, ?_, h⟩
      rw [Happening.about_of_none fun x member => absurd member List.not_mem_nil, List.append_nil]
      by_cases own : given = l.token
      · have gone : going = false := by
          rw [← Bool.not_eq_true, ← h.tended]
          intro member
          obtain ⟨t, tended, rfl⟩ := List.mem_map.mp member
          exact absent t tended own.symm
        subst gone
        rw [if_pos own]
        exact course.ended .stop
      · rw [if_neg own, List.append_nil]
        exact course
  | some t =>
      have tended := List.mem_of_find?_eq_some found
      obtain rfl : t.lease.token = given := by
        simpa using List.find?_some found
      by_cases own : t.lease.token = l.token
      · obtain rfl := h.sole t.lease (List.mem_map_of_mem tended) own
        obtain rfl := h.tended.mp (List.mem_map_of_mem tended)
        have off : ((t.lease.react .stop).run link s.world).value = false :=
          (Lease.run_stop t.lease link s.world).1
        refine ⟨false, ?_, h.react_off off⟩
        have reacted := course.react .stop link s.world
        rw [off] at reacted
        dsimp only
        rw [if_pos rfl, about_react]
        exact reacted
      · refine ⟨going, ?_, (h.perform (foreign_of_react own)).forget own⟩
        rw [if_neg own, List.append_nil, Happening.about_of_none (foreign_of_react own),
          List.append_nil]
        exact course

end Stands

theorem events_takeLock (link : Link σ) (p : Plan (Except Fault Lease)) (s : Session σ) :
    (s.takeLock link p).events = (s.perform link p).events := by
  rw [takeLock]
  cases (s.perform link p).value <;> rfl

theorem shown_givenBack (link : Link σ) (token : String) (s : Session σ) :
    (s.givenBack link token).filterMap Happening.event? =
      (s.giveBack link token).events.filter (·.line?.isNone) := by
  rw [givenBack, giveBack]
  cases s.tended.find? fun t => t.lease.token == token with
  | none => rfl
  | some t => exact Plan.events_trace link (t.lease.react .stop) s.world

theorem mem_of_earliest? {ts : List Tended} {t : Tended} (found : earliest? ts = some t) :
    t ∈ ts := by
  induction ts generalizing t with
  | nil => cases found
  | cons u ts ih =>
      rw [earliest?] at found
      split at found
      next v earlier =>
          split at found
          · cases found
            exact List.mem_cons_of_mem _ (ih earlier)
          · cases found
            exact List.mem_cons_self
      next =>
          cases found
          exact List.mem_cons_self

namespace SessionRun

variable {s s' : Session σ} {prompts : List Prompt} {past : List Happening} {events : List Event}
  {token : String}

theorem shown (run : SessionRun link token s prompts past events s') :
    past.filterMap Happening.event? = events.filter (·.line?.isNone) := by
  induction run with
  | start => rfl
  | @work _ _ _ s' _ _ p _ ih =>
      rw [List.filterMap_append, List.filter_append, ih, Plan.events_trace link p s'.world]
      rfl
  | @takeLock _ _ _ s' _ p _ _ ih =>
      rw [List.filterMap_append, List.filter_append, ih, events_takeLock,
        Plan.events_trace link p s'.world]
      rfl
  | moveTo _ _ ih => exact ih
  | @renew _ _ _ s' _ t _ ih =>
      rw [List.filterMap_append, List.filter_append, ih, Plan.events_trace]
      rfl
  | giveBack _ given ih =>
      rw [List.filterMap_append, List.filter_append, ih, shown_givenBack]

/-- On the way to an instant, a session does nothing but renew its leases. -/
theorem renewUntil (before : SessionRun link token s prompts past events s') (time count : Nat) :
    ∃ n later, SessionRun link token s (prompts ++ .replicate n .due) (past ++ later)
      (events ++ (s'.renewUntil link time count).events) (s'.renewUntil link time count).state := by
  have idle : ∃ n later, SessionRun link token s (prompts ++ .replicate n .due) (past ++ later)
      (events ++ []) (s'.moveTo link time) :=
    ⟨0, [], by simpa using before.moveTo time⟩
  induction count generalizing s' prompts past events with
  | zero => exact idle
  | succ count ih =>
      rw [Session.renewUntil]
      split
      next => exact idle
      next t found =>
          split
          next due =>
              have renewed := before.renew t (mem_of_earliest? found)
              obtain ⟨n, later, run⟩ := ih renewed ⟨0, [], by simpa using renewed.moveTo time⟩
              have own : (if t.lease.token = token then [Prompt.due] else []) =
                  .replicate (if t.lease.token = token then 1 else 0) .due := by
                split <;> rfl
              rw [own, List.append_assoc, List.replicate_append_replicate, List.append_assoc,
                List.append_assoc] at run
              exact ⟨_, _, run⟩
          next => exact idle

end SessionRun

/-- A lease on two replicas, which both have to agree. -/
def pair : Lease := ⟨"app:l", "token", ["app:lock:0:l", "app:lock:1:l"], 2, .ofSeconds 5⟩

end Session
end Remote
end CacheFacade
