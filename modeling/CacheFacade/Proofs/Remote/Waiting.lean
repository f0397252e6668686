import CacheFacade.Proofs.Remote.Residue
import CacheFacade.Proofs.Remote.Verdict

/-!
Waiting for a lock. Whoever waits tries again after each round that found the lock busy, and is told
what the first other round comes to. The rounds do not mix: what a round has written is let go, and
every server has answered, before the next one draws its token. So over servers that answer, nothing
that an earlier round has written stands in the way of a later one.
-/

namespace CacheFacade
namespace Remote

open Happening (exchanged)

namespace Plan

theorem state_logLines {σ : Type} {link : Link σ} (ls : List Line) (s : σ) :
    ((logLines ls).run link s).state = s := by
  induction ls with
  | nil => rfl
  | cons l ls ih => exact ih

end Plan

namespace Quorum

def lease (q : Quorum) (key token : String) (marks : List Mark) : Lease :=
  ⟨q.keys.qualify key, token, q.written key marks, q.majority, q.validity⟩

variable {σ : Type} {link : Link σ} {s s' : σ} {os : List Outcome} {q : Quorum} {key token : String}

theorem state_round (exchange : link.exchange (q.acquires key token) s = (os, s')) :
    ((q.round key token).run link s).state =
      ((q.conclude key token (q.concluded key os) ((q.concluded key os).verdict q.majority
        q.validity (link.now s' - link.now s))).run link s').state := by
  simp only [round_eq, Plan.run, exchange, Run.after, Plan.state_bind, Plan.state_logLines]

theorem state_conclude (r : Round) {v : Verdict} (missed : ¬ ∃ held, v = .acquired held) :
    ((q.conclude key token r v).run link s).state =
      (link.exchange (releases token r.held) s).2 := by
  rw [conclude_of_missed q key token r missed, Plan.state_bind]
  exact Plan.state_logLines _ _

theorem state_tryLock {s₀ : σ} (draw : link.draw s = (token, s₀)) :
    ((q.tryLock key).run link s).state = ((q.round key token).run link s₀).state := by
  obtain ⟨next, shape, idle⟩ :
      ∃ next : String → Verdict → Plan (Except Fault Lease),
        q.tryLock key = .draw (fun token => (q.round key token).bind (next token)) ∧
        ∀ token v (s : σ), ((next token v).run link s).state = s := by
    refine ⟨_, rfl, ?_⟩
    intro token v s
    cases v <;> rfl
  simp only [shape, Plan.run, draw, Plan.state_bind]
  exact idle _ _ _

/-- One try, from the token that it draws to what it comes to. Each replica is asked for, all in one
exchange; a try that does not take the lock lets go in another one what it wrote. -/
inductive Tries (q : Quorum) (link : Link σ) (key : String) (s : σ) :
    Except Fault Lease → List Happening → σ → Prop
  | taken {token : String} {s₀ s₁ : σ} {os : List Outcome} (draw : link.draw s = (token, s₀))
      (asked : link.exchange (q.acquires key token) s₀ = (os, s₁)) :
      Tries q link key s (.ok (q.lease key token (os.map Mark.ofOutcome)))
        (exchanged (q.acquires key token) os) s₁
  | missed {token : String} {s₀ s₁ s₂ : σ} {os gone : List Outcome}
      (draw : link.draw s = (token, s₀))
      (asked : link.exchange (q.acquires key token) s₀ = (os, s₁))
      (released : link.exchange (releases token (q.written key (os.map Mark.ofOutcome))) s₁ =
        (gone, s₂)) (f : Fault) :
      Tries q link key s (.error f) (exchanged (q.acquires key token) os ++
        exchanged (releases token (q.written key (os.map Mark.ofOutcome))) gone) s₂

theorem tries (q : Quorum) (link : Link σ) (key : String) (s : σ) :
    Tries q link key s ((q.tryLock key).run link s).value ((q.tryLock key).trace link s)
      ((q.tryLock key).run link s).state := by
  obtain ⟨token, s₀, draw⟩ : ∃ token s₀, link.draw s = (token, s₀) := ⟨_, _, rfl⟩
  obtain ⟨os, s₁, asked⟩ : ∃ os s₁, link.exchange (q.acquires key token) s₀ = (os, s₁) :=
    ⟨_, _, rfl⟩
  have written : (q.concluded key os).held = q.written key (os.map Mark.ofOutcome) :=
    held_concluded (length_of_exchange asked)
  rw [(tryLock_eq_round draw).1, (tryLock_eq_round draw).2, state_tryLock draw, value_round asked,
    trace_round asked, state_round asked]
  have acquired := verdict_acquired_iff (q.concluded key os) q.majority q.validity
    (link.now s₁ - link.now s₀)
  generalize (q.concluded key os).verdict _ _ _ = v at acquired
  by_cases took : ∃ held, v = .acquired held
  · obtain ⟨held, rfl⟩ := took
    obtain rfl : held = _ := ((acquired held).mp rfl).2.trans written
    rw [show (q.conclude key token _ _).trace link s₁ = [] from rfl, List.append_nil]
    exact .taken draw asked
  · obtain ⟨f, told⟩ : ∃ f, q.reply key token v = .error f := by
      cases v with
      | acquired held => exact absurd ⟨held, rfl⟩ took
      | busy | failed f => exact ⟨_, rfl⟩
    rw [told, trace_conclude _ took, state_conclude _ took, written]
    exact .missed draw asked rfl f

theorem lock_of_told (rounds : Nat)
    (told : ((q.tryLock key).run link s).value ≠ .error .notLocked) :
    ((q.lock key (rounds + 1)).run link s).value = ((q.tryLock key).run link s).value ∧
      ((q.lock key (rounds + 1)).run link s).state = ((q.tryLock key).run link s).state ∧
      (q.lock key (rounds + 1)).trace link s = (q.tryLock key).trace link s := by
  obtain ⟨next, shape, ends⟩ : ∃ next : Except Fault Lease → Plan (Except Fault Lease),
      q.lock key (rounds + 1) = (q.tryLock key).bind next ∧
        ∀ v, v ≠ .error .notLocked → next v = .done v := by
    refine ⟨_, rfl, ?_⟩
    intro v told
    cases v with
    | ok l => rfl
    | error f =>
        cases f with
        | notLocked => exact absurd rfl told
        | _ => rfl
  rw [shape, Plan.value_bind, Plan.state_bind, Plan.trace_bind, ends _ told]
  generalize (q.tryLock key).run link s = r, (q.tryLock key).trace link s = hs
  exact ⟨rfl, rfl, List.append_nil hs⟩

theorem lock_of_busy (rounds : Nat) (busy : ((q.tryLock key).run link s).value = .error .notLocked)
    (rest : link.pass retryInterval ((q.tryLock key).run link s).state = s') :
    ((q.lock key (rounds + 1)).run link s).value = ((q.lock key rounds).run link s').value ∧
      ((q.lock key (rounds + 1)).run link s).state = ((q.lock key rounds).run link s').state ∧
      (q.lock key (rounds + 1)).trace link s =
        (q.tryLock key).trace link s ++ (q.lock key rounds).trace link s' := by
  obtain ⟨next, shape, waits⟩ : ∃ next : Except Fault Lease → Plan (Except Fault Lease),
      q.lock key (rounds + 1) = (q.tryLock key).bind next ∧
        next (.error .notLocked) = .pause retryInterval (q.lock key rounds) := ⟨_, rfl, rfl⟩
  rw [shape, Plan.value_bind, Plan.state_bind, Plan.trace_bind, busy, waits, ← rest]
  exact ⟨rfl, rfl, rfl⟩

end Quorum

namespace Registry

/-- Whatever happened from one registry to the other, nobody wrote one of the tokens. -/
def Spares (tokens : List String) (r r' : Registry) : Prop :=
  ∀ t ∈ tokens, ∀ k, r'.carries k t = true → r.carries k t = true

/-- Servers carry out the commands of an exchange, each once and in any order, and answer each one.
Meanwhile time passes, and others write and remove what they please, but spare the tokens. -/
inductive Answers (tokens : List String) (r : Registry) : List (Command × Outcome) → Registry → Prop
  | start : Answers tokens r [] r
  | others {served : List (Command × Outcome)} {r' r'' : Registry}
      (before : Answers tokens r served r') (spared : r'.Spares tokens r'') :
      Answers tokens r served r''
  | serve {served : List (Command × Outcome)} {r' : Registry} (before : Answers tokens r served r')
      (c : Command) : Answers tokens r ((c, .ok (r'.serve c).1) :: served) (r'.serve c).2

/-- A key carries a token after an exchange that has just written it there, or else because it did
before and the exchange has not removed it. -/
theorem Answers.carries {tokens : List String} {r r' : Registry} {served : List (Command × Outcome)}
    (h : Answers tokens r served r') {k t : String} (member : t ∈ tokens)
    (carries : r'.carries k t = true) :
    (∃ ttl, (.acquire k t ttl, .ok .okay) ∈ served) ∨
      r.carries k t = true ∧ ∀ o, (.release k t, o) ∉ served := by
  induction h with
  | start => exact .inr ⟨carries, fun _ => List.not_mem_nil⟩
  | others before spared ih => exact ih (spared t member k carries)
  | @serve served r' before c ih =>
      obtain ⟨ttl, rfl, -, vacant⟩ | ⟨carried, kept⟩ := carries_of_meet (f := .answered) carries
      · rw [serve_acquire_vacant vacant]
        exact .inl ⟨ttl, List.mem_cons_self⟩
      · obtain ⟨ttl, written⟩ | ⟨before, unasked⟩ := ih carried
        · exact .inl ⟨ttl, List.mem_cons_of_mem _ written⟩
        · refine .inr ⟨before, fun o asked => ?_⟩
          obtain same | old := List.mem_cons.mp asked
          · cases same
            exact kept rfl trivial
          · exact unasked o old

end Registry

/-- A link to servers that answer every command and that others use as well. A token is new to
everybody when it is drawn, and nobody else writes it later. -/
structure Link.Shared {σ : Type} (link : Link σ) (sound : σ → Prop) (registry : σ → Registry)
    (drawn : σ → List String) : Prop where
  draw : ∀ {s s' : σ} {token : String}, sound s → link.draw s = (token, s') →
    sound s' ∧ token ∉ drawn s ∧ drawn s' = token :: drawn s ∧
      (∀ k, (registry s').carries k token = false) ∧ (registry s).Spares (drawn s) (registry s')
  pass : ∀ {s : σ} (d : Span), sound s → sound (link.pass d s) ∧ drawn (link.pass d s) = drawn s ∧
    (registry s).Spares (drawn s) (registry (link.pass d s))
  exchange : ∀ {s s' : σ} {commands : List Command} {os : List Outcome}, sound s →
    (∀ c ∈ commands, ∃ t ∈ drawn s, c.token? = some t) → link.exchange commands s = (os, s') →
    sound s' ∧ drawn s' = drawn s ∧ ∃ served, (registry s).Answers (drawn s) served (registry s') ∧
      served.Perm (commands.zip os)

namespace Quorum

variable {σ : Type} {link : Link σ} {sound : σ → Prop} {registry : σ → Registry}
  {drawn : σ → List String} {q : Quorum} {key : String} {s s' : σ}

theorem mem_written {token k t : String} {ttl : Nat} {os : List Outcome}
    (answered : (.acquire k t ttl, .ok .okay) ∈ (q.acquires key token).zip os) :
    t = token ∧ k ∈ q.written key (os.map Mark.ofOutcome) := by
  obtain ⟨i, there⟩ := List.mem_iff_getElem?.mp answered
  obtain ⟨asked, okay⟩ := List.getElem?_zip_eq_some.mp there
  simp only [acquires, replicas, List.map_map, List.getElem?_map, Option.map_eq_some_iff,
    Function.comp_apply, Command.acquire.injEq] at asked
  obtain ⟨j, numbered, rfl, rfl, -⟩ := asked
  obtain rfl : i = j := by
    obtain ⟨below, same⟩ := List.getElem?_eq_some_iff.mp numbered
    rw [← same, List.getElem_range]
  refine ⟨rfl, List.mem_map_of_mem (List.mem_filter.mpr ⟨List.mem_of_getElem? numbered, ?_⟩)⟩
  rw [List.getElem?_map, okay]
  rfl

/-- After replicas were asked for, those carry a drawn token that did before, and those that were
written carry the new one. -/
theorem carries_of_acquires (shared : link.Shared sound registry drawn) (good : sound s)
    {token : String} {os : List Outcome} (own : token ∈ drawn s)
    (asked : link.exchange (q.acquires key token) s = (os, s')) :
    sound s' ∧ drawn s' = drawn s ∧ ∀ t ∈ drawn s, ∀ k, (registry s').carries k t = true →
      (registry s).carries k t = true ∨ t = token ∧ k ∈ q.written key (os.map Mark.ofOutcome) := by
  have drawnOnly : ∀ c ∈ q.acquires key token, ∃ t ∈ drawn s, c.token? = some t := by
    intro c member
    obtain ⟨r, -, rfl⟩ := List.mem_map.mp member
    exact ⟨token, own, rfl⟩
  obtain ⟨good', same, served, answers, all⟩ := shared.exchange good drawnOnly asked
  refine ⟨good', same, fun t member k carries => ?_⟩
  obtain ⟨ttl, answered⟩ | ⟨before, -⟩ := answers.carries member carries
  · exact .inr (mem_written (all.mem_iff.mp answered))
  · exact .inl before

theorem carries_of_releases (shared : link.Shared sound registry drawn) (good : sound s)
    {token : String} {replicas : List String} {gone : List Outcome} (own : token ∈ drawn s)
    (released : link.exchange (releases token replicas) s = (gone, s')) :
    sound s' ∧ drawn s' = drawn s ∧ ∀ t ∈ drawn s, ∀ k, (registry s').carries k t = true →
      (registry s).carries k t = true ∧ (t = token → k ∉ replicas) := by
  have drawnOnly : ∀ c ∈ releases token replicas, ∃ t ∈ drawn s, c.token? = some t := by
    intro c member
    obtain ⟨r, -, rfl⟩ := List.mem_map.mp member
    exact ⟨token, own, rfl⟩
  have each : gone.length = (releases token replicas).length := by
    rw [← link.length_exchange _ s, released]
  obtain ⟨good', same, served, answers, all⟩ := shared.exchange good drawnOnly released
  refine ⟨good', same, fun t member k carries => ?_⟩
  obtain ⟨ttl, answered⟩ | ⟨before, unasked⟩ := answers.carries member carries
  · obtain ⟨r, -, wrong⟩ := List.mem_map.mp (List.of_mem_zip (all.mem_iff.mp answered)).1
    cases wrong
  · refine ⟨before, ?_⟩
    rintro rfl listed
    have command : Command.release k t ∈ ((releases t replicas).zip gone).map Prod.fst := by
      rw [List.map_fst_zip (Nat.le_of_eq each.symm)]
      exact List.mem_map_of_mem listed
    obtain ⟨⟨c, o⟩, answered, rfl⟩ := List.mem_map.mp command
    exact unasked o (all.mem_iff.mpr answered)

/-- A round over servers that answer leaves alone what carries an older token. If it does not take
the lock, nothing carries its own. -/
theorem Tries.shared (shared : link.Shared sound registry drawn) (good : sound s)
    {v : Except Fault Lease} {hs : List Happening} (h : Tries q link key s v hs s') :
    sound s' ∧ (link.draw s).1 ∉ drawn s ∧ drawn s' = (link.draw s).1 :: drawn s ∧
      (registry s).Spares (drawn s) (registry s') ∧
      ((¬ ∃ l, v = .ok l) → ∀ k, (registry s').carries k (link.draw s).1 = false) := by
  cases h with
  | @taken token s₀ _ os draw asked =>
      obtain ⟨good₀, new, drawn₀, vacant, spared⟩ := shared.draw good draw
      have own : token ∈ drawn s₀ := drawn₀ ▸ List.mem_cons_self
      obtain ⟨good₁, drawn₁, written⟩ := carries_of_acquires shared good₀ own asked
      rw [draw]
      refine ⟨good₁, new, drawn₁.trans drawn₀, fun t old k carries => ?_, fun free => ?_⟩
      · obtain before | ⟨rfl, -⟩ := written t (drawn₀ ▸ List.mem_cons_of_mem _ old) k carries
        · exact spared t old k before
        · exact absurd old new
      · exact absurd ⟨_, rfl⟩ free
  | @missed token s₀ s₁ _ os gone draw asked released f =>
      obtain ⟨good₀, new, drawn₀, vacant, spared⟩ := shared.draw good draw
      have own : token ∈ drawn s₀ := drawn₀ ▸ List.mem_cons_self
      obtain ⟨good₁, drawn₁, written⟩ := carries_of_acquires shared good₀ own asked
      obtain ⟨good₂, drawn₂, removed⟩ := carries_of_releases shared good₁ (drawn₁ ▸ own) released
      rw [draw]
      refine ⟨good₂, new, (drawn₂.trans drawn₁).trans drawn₀, fun t old k carries => ?_,
        fun _ k => Bool.eq_false_iff.mpr fun carries => ?_⟩
      · have member : t ∈ drawn s₀ := drawn₀ ▸ List.mem_cons_of_mem _ old
        obtain before | ⟨rfl, -⟩ := written t member k (removed t (drawn₁ ▸ member) k carries).1
        · exact spared t old k before
        · exact absurd old new
      · obtain ⟨there, unlisted⟩ := removed token (drawn₁ ▸ own) k carries
        obtain before | ⟨-, listed⟩ := written token own k there
        · rw [vacant] at before
          cases before
        · exact unlisted rfl listed

end Quorum

/-- Servers that answer at once, and the tokens that were drawn here. -/
structure Site where
  registry : Registry
  drawn : List String

namespace Site

def mint (n : Nat) : String := String.ofList (List.replicate (n + 1) 'x')

def serveAll (r : Registry) : List Command → List Outcome × Registry
  | [] => ([], r)
  | c :: commands =>
    let (os, r') := serveAll (r.serve c).2 commands
    (.ok (r.serve c).1 :: os, r')

theorem length_serveAll (r : Registry) (commands : List Command) :
    (serveAll r commands).1.length = commands.length := by
  induction commands generalizing r with
  | nil => rfl
  | cons c commands ih => exact congrArg (· + 1) (ih _)

def link : Link Site where
  exchange commands s :=
    let (os, r) := serveAll s.registry commands
    (os, { s with registry := r })
  now s := s.registry.now
  pass d s := { s with registry := s.registry.pass d.nanos }
  draw s := (mint s.drawn.length, { s with drawn := mint s.drawn.length :: s.drawn })
  length_exchange commands s := length_serveAll s.registry commands

/-- Keys carry tokens that were drawn here, or that of another. -/
structure Sound (s : Site) : Prop where
  minted : ∀ t ∈ s.drawn, ∃ n < s.drawn.length, t = mint n
  carried : ∀ k t, s.registry.carries k t = true → t ∈ s.drawn ∨ t = "other"

theorem mint_injective {m n : Nat} (same : mint m = mint n) : m = n := by
  have lengths := congrArg (fun t => t.toList.length) same
  simpa [mint] using lengths

theorem mint_ne_other (n : Nat) : mint n ≠ "other" := by
  intro same
  have first := congrArg (fun t => t.toList.head?) same
  simp [mint, List.replicate_succ] at first

theorem answers_serveAll {tokens : List String} {r r' : Registry}
    {served : List (Command × Outcome)} (before : r.Answers tokens served r')
    (commands : List Command) :
    r.Answers tokens ((commands.zip (serveAll r' commands).1).reverse ++ served)
      (serveAll r' commands).2 := by
  induction commands generalizing r' served with
  | nil => exact before
  | cons c commands ih => simpa [serveAll] using ih (before.serve c)

theorem carried_serveAll {r : Registry} {commands : List Command} {k t : String}
    (carries : (serveAll r commands).2.carries k t = true) :
    r.carries k t = true ∨ ∃ c ∈ commands, c.token? = some t := by
  induction commands generalizing r with
  | nil => exact .inl carries
  | cons c commands ih =>
      obtain before | ⟨d, member, named⟩ := ih carries
      · obtain ⟨ttl, rfl, -⟩ | ⟨before, -⟩ := Registry.carries_of_meet (f := .answered) before
        · exact .inr ⟨_, List.mem_cons_self, rfl⟩
        · exact .inl before
      · exact .inr ⟨d, List.mem_cons_of_mem _ member, named⟩

theorem shared_link : link.Shared Sound registry drawn where
  draw := by
    rintro s _ _ good ⟨⟩
    have new : mint s.drawn.length ∉ s.drawn := by
      intro old
      obtain ⟨n, below, same⟩ := good.minted _ old
      exact Nat.ne_of_gt below (mint_injective same)
    refine ⟨⟨fun t member => ?_, fun k t carries => ?_⟩, new, rfl, fun k => ?_, fun t _ k => id⟩
    · obtain rfl | old := List.mem_cons.mp member
      · exact ⟨_, Nat.lt_succ_self _, rfl⟩
      · obtain ⟨n, below, same⟩ := good.minted t old
        exact ⟨n, Nat.lt_succ_of_lt below, same⟩
    · exact (good.carried k t carries).imp (List.mem_cons_of_mem _) id
    · exact Bool.eq_false_iff.mpr fun carries =>
        (good.carried k _ carries).elim new (mint_ne_other _)
  pass := by
    intro s d good
    refine ⟨⟨good.minted, fun k t carries => ?_⟩, rfl, fun t _ k => Registry.carries_of_pass⟩
    exact good.carried k t (Registry.carries_of_pass carries)
  exchange := by
    rintro s _ commands _ good own ⟨⟩
    refine ⟨⟨good.minted, fun k t carries => ?_⟩, rfl, _, answers_serveAll .start commands, ?_⟩
    · obtain before | ⟨c, member, named⟩ := carried_serveAll carries
      · exact good.carried k t before
      · obtain ⟨t', drawn, named'⟩ := own c member
        cases named.symm.trans named'
        exact .inl drawn
    · rw [List.append_nil]
      exact List.reverse_perm _

/-- Two replicas of three belong to another for 20 milliseconds. -/
def taken : Site :=
  ⟨(Registry.vacant.assign "app:lock:0:l" (some ⟨"other", 20 * Span.perMilli⟩)).assign
    "app:lock:1:l" (some ⟨"other", 20 * Span.perMilli⟩), []⟩

theorem sound_taken : Sound taken := by
  refine ⟨nofun, fun k t carries => .inr ?_⟩
  obtain ⟨d, held, -⟩ := (Registry.carries_iff _ _ _).mp carries
  simp only [taken, Registry.assign, Function.update_apply, Registry.vacant] at held
  split at held
  · cases held
    rfl
  · split at held
    · cases held
      rfl
    · cases held

end Site

/-- A caller who waits for a lock: over a link, from a state on. -/
structure Waiter (σ : Type) where
  link : Link σ
  quorum : Quorum
  key : String
  start : σ

namespace Waiter

variable {σ : Type}

/-- The state in which a round begins. Between two rounds there is a pause. -/
def stateAt (w : Waiter σ) : Nat → σ
  | 0 => w.start
  | n + 1 => w.link.pass Quorum.retryInterval
      ((w.quorum.tryLock w.key).run w.link (w.stateAt n)).state

variable (w : Waiter σ)

def round (n : Nat) : Run σ (Except Fault Lease) := (w.quorum.tryLock w.key).run w.link (w.stateAt n)

def part (n : Nat) : List Happening := (w.quorum.tryLock w.key).trace w.link (w.stateAt n)

def token (n : Nat) : String := (w.link.draw (w.stateAt n)).1

def BusyBefore (n : Nat) : Prop := ∀ i < n, (w.round i).value = .error .notLocked

/-- A round that is not busy comes after busy ones only. -/
def EndsWith (n : Nat) : Prop := w.BusyBefore n ∧ (w.round n).value ≠ .error .notLocked

/-- What the caller comes to who waits for so many rounds at most. -/
def lock (rounds : Nat) : Run σ (Except Fault Lease) :=
  (w.quorum.lock w.key rounds).run w.link w.start

def trace (rounds : Nat) : List Happening := (w.quorum.lock w.key rounds).trace w.link w.start

variable {w}

theorem lock_of_busyBefore {n : Nat} (busy : w.BusyBefore n) (rounds : Nat) :
    (w.lock (n + rounds)).value =
        ((w.quorum.lock w.key rounds).run w.link (w.stateAt n)).value ∧
      (w.lock (n + rounds)).state = ((w.quorum.lock w.key rounds).run w.link (w.stateAt n)).state ∧
      w.trace (n + rounds) = (List.range n).flatMap w.part ++
        (w.quorum.lock w.key rounds).trace w.link (w.stateAt n) := by
  induction n generalizing rounds with
  | zero =>
      rw [Nat.zero_add]
      exact ⟨rfl, rfl, rfl⟩
  | succ n ih =>
      have earlier : w.BusyBefore n := fun i below => busy i (Nat.lt_succ_of_lt below)
      obtain ⟨value, state, traced⟩ := ih earlier (rounds + 1)
      obtain ⟨value', state', traced'⟩ :=
        Quorum.lock_of_busy rounds (busy n (Nat.lt_succ_self n)) rfl
      rw [Nat.add_right_comm, Nat.add_assoc, value, state, traced, value', state', traced',
        List.range_succ, List.flatMap_append, List.append_assoc, List.flatMap_singleton]
      exact ⟨rfl, rfl, rfl⟩

theorem lock_of_endsWith {n rounds : Nat} (ends : w.EndsWith n) (patient : n < rounds) :
    (w.lock rounds).value = (w.round n).value ∧ (w.lock rounds).state = (w.round n).state ∧
      w.trace rounds = (List.range (n + 1)).flatMap w.part := by
  obtain ⟨more, rfl⟩ := Nat.exists_eq_add_of_lt patient
  obtain ⟨value, state, traced⟩ := lock_of_busyBefore ends.1 (more + 1)
  obtain ⟨value', state', traced'⟩ := Quorum.lock_of_told more ends.2
  rw [Nat.add_assoc, value, state, traced, value', state', traced', List.range_succ,
    List.flatMap_append, List.flatMap_singleton]
  exact ⟨rfl, rfl, rfl⟩

theorem tries (w : Waiter σ) (n : Nat) :
    w.quorum.Tries w.link w.key (w.stateAt n) (w.round n).value (w.part n) (w.round n).state :=
  Quorum.tries ..

def requests (w : Waiter σ) (n : Nat) : List Command := w.quorum.acquires w.key (w.token n)

/-- The commands that a round ends with if it does not take the lock, by the answers to its first
ones. -/
def returns (w : Waiter σ) (n : Nat) (os : List Outcome) : List Command :=
  Quorum.releases (w.token n) (w.quorum.written w.key (os.map Mark.ofOutcome))

/-- A round asks for each replica once. Unless it takes the lock, it lets go those that were
written, and has an outcome for each of them before it ends. -/
theorem part_eq (w : Waiter σ) (n : Nat) :
    ∃ os, (w.requests n).length = 2 * w.quorum.majority - 1 ∧ os.length = (w.requests n).length ∧
      ((∃ l, (w.round n).value = .ok l ∧ l.token = w.token n ∧
          w.part n = exchanged (w.requests n) os) ∨
        ∃ f gone, (w.round n).value = .error f ∧ gone.length = (w.returns n os).length ∧
          w.part n = exchanged (w.requests n) os ++ exchanged (w.returns n os) gone) := by
  have size : (w.requests n).length = 2 * w.quorum.majority - 1 := by
    simp [requests, Quorum.acquires, Quorum.replicas, Quorum.size]
  have tried := w.tries n
  simp only [requests, returns, token] at size ⊢
  generalize (w.round n).value = v, w.part n = hs, (w.round n).state = s' at tried ⊢
  cases tried with
  | @taken token s₀ _ os draw asked =>
      rw [draw] at size ⊢
      have all := w.link.length_exchange (w.quorum.acquires w.key token) s₀
      rw [asked] at all
      exact ⟨os, size, all, .inl ⟨_, rfl, rfl, rfl⟩⟩
  | @missed token s₀ s₁ _ os gone draw asked released f =>
      rw [draw] at size ⊢
      have all := w.link.length_exchange (w.quorum.acquires w.key token) s₀
      have each := w.link.length_exchange
        (Quorum.releases token (w.quorum.written w.key (os.map Mark.ofOutcome))) s₁
      rw [asked] at all
      rw [released] at each
      exact ⟨os, size, all, .inr ⟨f, gone, rfl, each, rfl⟩⟩

section

variable {sound : σ → Prop} {registry : σ → Registry} {drawn : σ → List String} {n : Nat} {s : σ}

/-- A state in which the tokens of so many rounds were drawn. If those rounds were busy, nothing
carries one of their tokens. -/
structure Cleared (w : Waiter σ) (sound : σ → Prop) (registry : σ → Registry)
    (drawn : σ → List String) (n : Nat) (s : σ) : Prop where
  sound : sound s
  drawn : ∀ i < n, w.token i ∈ drawn s
  clear : w.BusyBefore n → ∀ i < n, ∀ k, (registry s).carries k (w.token i) = false

theorem Cleared.spared {s' : σ} (h : w.Cleared sound registry drawn n s) (good : sound s')
    (kept : ∀ t ∈ drawn s, t ∈ drawn s') (spared : (registry s).Spares (drawn s) (registry s')) :
    w.Cleared sound registry drawn n s' := by
  refine ⟨good, fun i below => kept _ (h.drawn i below), fun busy i below k => ?_⟩
  exact Bool.eq_false_iff.mpr fun carries =>
    Bool.eq_false_iff.mp (h.clear busy i below k) (spared _ (h.drawn i below) k carries)

/-- A round adds its own token, which nothing carries either if the round was busy. -/
theorem Cleared.round (h : w.Cleared sound registry drawn n (w.stateAt n))
    (shared : w.link.Shared sound registry drawn) :
    w.Cleared sound registry drawn n (w.round n).state ∧
      w.Cleared sound registry drawn (n + 1) (w.round n).state := by
  obtain ⟨good, -, same, spared, free⟩ := (w.tries n).shared shared h.sound
  have past := h.spared good (fun t old => same ▸ List.mem_cons_of_mem _ old) spared
  refine ⟨past, good, fun i below => ?_, fun busy i below => ?_⟩
  · obtain earlier | rfl := Nat.lt_succ_iff_lt_or_eq.mp below
    · exact past.drawn i earlier
    · exact same ▸ List.mem_cons_self
  · obtain earlier | rfl := Nat.lt_succ_iff_lt_or_eq.mp below
    · exact past.clear (fun j before => busy j (Nat.lt_succ_of_lt before)) i earlier
    · refine free ?_
      rw [busy i below]
      exact nofun

theorem cleared_stateAt (shared : w.link.Shared sound registry drawn) (good : sound w.start) (n : Nat) :
    w.Cleared sound registry drawn n (w.stateAt n) := by
  induction n with
  | zero => exact ⟨good, nofun, nofun⟩
  | succ n ih =>
      have done := (ih.round shared).2
      obtain ⟨good', same, spared⟩ := shared.pass Quorum.retryInterval done.sound
      exact done.spared good' (fun t old => same ▸ old) spared

theorem token_ne (shared : w.link.Shared sound registry drawn) (good : sound w.start) {i j : Nat}
    (before : i < j) : w.token i ≠ w.token j := by
  have cleared := cleared_stateAt shared good j
  intro same
  have new : w.token j ∉ drawn (w.stateAt j) := ((w.tries j).shared shared cleared.sound).2.1
  exact new (same ▸ cleared.drawn i before)

end

/-- Waiting ends with the first round that is not busy, and until then goes through whole rounds,
each under the token that it draws, and each over before the next begins. Over servers that answer,
no two rounds have one token, and once rounds were busy, nothing carries a token of theirs, neither
when the next round begins nor when it ends. -/
theorem waits_in_rounds (w : Waiter σ) :
    (∀ n, w.EndsWith n → ∀ rounds, n < rounds →
      (w.lock rounds).value = (w.round n).value ∧ (w.lock rounds).state = (w.round n).state ∧
        w.trace rounds = (List.range (n + 1)).flatMap w.part) ∧
    (∀ rounds, w.BusyBefore rounds → (w.lock rounds).value = .error .notLocked ∧
      w.trace rounds = (List.range rounds).flatMap w.part) ∧
    (∀ n, ∃ os, (w.requests n).length = 2 * w.quorum.majority - 1 ∧
      os.length = (w.requests n).length ∧
      ((∃ l, (w.round n).value = .ok l ∧ l.token = w.token n ∧
          w.part n = exchanged (w.requests n) os) ∨
        ∃ f gone, (w.round n).value = .error f ∧ gone.length = (w.returns n os).length ∧
          w.part n = exchanged (w.requests n) os ++ exchanged (w.returns n os) gone)) ∧
    ∀ sound registry drawn, w.link.Shared sound registry drawn → sound w.start →
      (∀ i j, i < j → w.token i ≠ w.token j) ∧
        ∀ n, w.BusyBefore n → ∀ i < n, ∀ k, (registry (w.stateAt n)).carries k (w.token i) = false ∧
          (registry (w.round n).state).carries k (w.token i) = false := by
  refine ⟨fun n ends rounds patient => lock_of_endsWith ends patient, fun rounds busy => ?_,
    w.part_eq, fun sound registry drawn shared good => ⟨fun i j => token_ne shared good, ?_⟩⟩
  · obtain ⟨value, -, traced⟩ := lock_of_busyBefore busy 0
    exact ⟨value, traced.trans (List.append_nil _)⟩
  · intro n busy i below k
    have cleared := cleared_stateAt shared good n
    exact ⟨cleared.clear busy i below k, (cleared.round shared).1.clear busy i below k⟩

/-- Someone waits for a lock of which another has two replicas. -/
def second : Waiter Site := ⟨Site.link, Quorum.trio, "l", Site.taken⟩

/-- In the pause the replicas of the other run out, so the second round takes the lock. The first
one left nothing. -/
theorem waits_in_rounds_second :
    second.EndsWith 1 ∧ (∃ l, (second.lock 9).value = .ok l ∧ l.token = second.token 1) ∧
      second.token 0 ≠ second.token 1 ∧
      ∀ k, (second.lock 9).state.registry.carries k (second.token 0) = false := by
  obtain ⟨first, -, shape, shared⟩ := waits_in_rounds second
  obtain ⟨apart, clear⟩ := shared _ _ _ Site.shared_link Site.sound_taken
  have busy : second.BusyBefore 1 := by
    intro i below
    obtain rfl := Nat.lt_one_iff.mp below
    rfl
  have taken : ∃ l, (second.round 1).value = .ok l := ⟨_, rfl⟩
  obtain ⟨l, told⟩ := taken
  have ends : second.EndsWith 1 := ⟨busy, by rw [told]; exact nofun⟩
  obtain ⟨value, state, -⟩ := first 1 ends 9 (by decide)
  obtain ⟨-, -, -, ⟨l', told', own, -⟩ | ⟨f, -, told', -⟩⟩ := shape 1
  · refine ⟨ends, ⟨l', value.trans told', own⟩, apart 0 1 Nat.zero_lt_one, fun k => ?_⟩
    rw [state]
    exact (clear 1 busy 0 Nat.zero_lt_one k).2
  · rw [told] at told'
    cases told'

end Waiter
end Remote
end CacheFacade
