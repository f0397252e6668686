import CacheFacade.Proofs.Keys
import CacheFacade.Proofs.Remote.Lifetime
import CacheFacade.Proofs.Remote.Trace
import CacheFacade.Remote.Cache

/-!
What an operation asks a server for. Each one comes to one of three things, which its arguments
decide: nothing is asked for, the value is rejected, or one command is asked for, on the keys of the
operation and with a lifetime that a server accepts. Nothing is asked for once that command is
answered, whatever the answer is.
-/

namespace CacheFacade

/-- The value that an operation writes. -/
def Action.value? : Action → Option Val
  | .set _ v | .setFor _ v _ | .fieldSet _ _ v | .fieldSetFor _ _ v _ => some v
  | _ => none

/-- An operation on a list that is empty. -/
def Action.NamesNothing : Action → Prop
  | .deleteAll keys => keys = []
  | .fieldDelete _ names => names = []
  | _ => False

namespace Remote

/-- The keys among the words of a command, as a server takes them: a script is given one key, a
removal has keys only, and every other command has its key behind its name. -/
def Command.keyWords : List Bytes → List Bytes
  | [] => []
  | name :: rest =>
    if name = Utf8.encode "EVAL" then (rest.drop 2).take 1
    else if name = Utf8.encode "DEL" then rest
    else rest.take 1

theorem Command.keyWords_words (c : Command) : keyWords c.words = c.keys.map Utf8.encode := by
  cases c with
  | delete names =>
      have name : Utf8.encode "DEL" ≠ Utf8.encode "EVAL" := by decide
      simp [words, texts, keyWords, keys, name]
  | _ => rfl

theorem Command.ttl_pos {c : Command}
    (lasting : c.ttl? = none ∨ ∃ d, c.ttl? = some (milliseconds d)) :
    ∀ t, c.ttl? = some t → 1 ≤ t := by
  intro t given
  obtain none | ⟨d, some⟩ := lasting
  · rw [none] at given
    cases given
  · rw [some] at given
    cases given
    exact milliseconds_pos d

namespace Engine

open Plan

variable {α β σ : Type} {P : Command → Prop} {c : Engine} {a : Action}

/-- A plan that asks for one command. Without a connection it fails, and for that reason. -/
inductive Poses (P : Command → Prop) : Result α → Prop
  | ask (command : Command) (next : List Outcome → Result α) (proper : P command)
      (quiet : ∀ os, (next os).Quiet)
      (unconnected : ∀ why, next [.error (.unconnected why)] =
        .done (.error (Trouble.unconnected why).fault)) :
      Poses P (.ask [command] next)

theorem quiet_andThen {p : Result α} {f : α → Result β} (h : p.Quiet) (rest : ∀ a, (f a).Quiet) :
    (andThen p f).Quiet := by
  apply h.bind
  rintro (e | a)
  · trivial
  · exact rest a

theorem poses_query {command : Command} (proper : P command) (reading : Answer.Reading α) :
    Poses P (query command reading) :=
  .ask command _ proper (fun _ => trivial) fun _ => rfl

theorem Poses.andThen {p : Result α} {f : α → Result β} (h : Poses P p)
    (rest : ∀ a, (f a).Quiet) : Poses P (andThen p f) := by
  obtain ⟨command, next, proper, quiet, unconnected⟩ := h
  refine .ask command _ proper (fun os => quiet_andThen (quiet os) rest) ?_
  intro why
  rw [unconnected]
  rfl

theorem Poses.asks {Q : Command → Prop} {p : Result α} (h : Poses P p) (sub : ∀ d, P d → Q d) :
    p.Asks Q := by
  obtain ⟨command, next, proper, quiet, -⟩ := h
  refine ⟨?_, fun os => (quiet os).asks⟩
  intro d member
  cases List.mem_singleton.mp member
  exact sub _ proper

/-- Over a link, the one command meets its fate, and that is all. -/
theorem Poses.trace_eq {p : Result α} (h : Poses P p) (link : Link σ) (s : σ) :
    ∃ command o, p.trace link s = [.asked command o] ∧ P command ∧
      ∀ why, o = .error (.unconnected why) →
        (p.run link s).value = .error (Trouble.unconnected why).fault := by
  obtain ⟨command, next, proper, quiet, unconnected⟩ := h
  have alone := link.length_exchange [command] s
  obtain ⟨o, answered⟩ := List.length_eq_one_iff.mp alone
  refine ⟨command, o, ?_, proper, ?_⟩
  · simp only [trace, answered, (quiet _).trace_eq_nil]
    rfl
  · rintro why rfl
    simp only [run, answered, unconnected]
    rfl

theorem quiet_refused (r : Rejection) : (refused r : Result α).Quiet :=
  (quiet_logLines _).bind fun _ => trivial

theorem yields_refused (r : Rejection) :
    (refused r : Result α).Yields (· = .error (.serialization r.text)) :=
  (yields_any _).bind fun _ _ => rfl

theorem quiet_decoded (key : String) (bs : Bytes) : (c.decoded key bs).Quiet := by
  unfold decoded
  split <;> trivial

theorem quiet_decodedIfFound (key : String) (found : Option Bytes) :
    (c.decodedIfFound key found).Quiet := by
  cases found with
  | none => trivial
  | some bs => exact quiet_andThen (quiet_decoded key bs) fun _ => trivial

theorem quiet_decodedFields (key : String) (found : List (String × Bytes)) :
    (c.decodedFields key found).Quiet := by
  induction found with
  | nil => trivial
  | cons e found ih =>
      exact quiet_andThen (quiet_decoded key e.2) fun _ => quiet_andThen ih fun _ => trivial

/-- A command for an operation on the caller's keys. -/
structure Proper (c : Engine) (keys : List String) (command : Command) : Prop where
  keys : command.keys = c.keys.qualifyAll keys
  ttl : ∀ t, command.ttl? = some t → 1 ≤ t

section Commands

variable {key : String} {command : Command}

theorem proper_timeless (own : command.keys = [c.keys.qualify key]) (none : command.ttl? = none) :
    c.Proper [key] command :=
  ⟨own, Command.ttl_pos (.inl none)⟩

theorem proper_lasting {d : Span} (own : command.keys = [c.keys.qualify key])
    (given : command.ttl? = some (milliseconds d)) : c.Proper [key] command :=
  ⟨own, Command.ttl_pos (.inr ⟨d, given⟩)⟩

/-- One command on one key, and something without the server about its answer. -/
theorem poses_timeless (own : command.keys = [c.keys.qualify key]) (none : command.ttl? = none)
    {reading : Answer.Reading α} {f : α → Result β} (rest : ∀ a, (f a).Quiet) :
    Poses (c.Proper [key]) (Engine.andThen (query command reading) f) :=
  (poses_query (proper_timeless own none) reading).andThen rest

theorem poses_lasting {d : Span} (own : command.keys = [c.keys.qualify key])
    (given : command.ttl? = some (milliseconds d)) {reading : Answer.Reading α}
    {f : α → Result β} (rest : ∀ a, (f a).Quiet) :
    Poses (c.Proper [key]) (Engine.andThen (query command reading) f) :=
  (poses_query (proper_lasting own given) reading).andThen rest

end Commands

/-- What the plan of an operation comes to. -/
inductive Posed (c : Engine) (a : Action) : Result Reply → Prop
  | nothing (empty : a.NamesNothing) (r : Reply) : Posed c a (.done (.ok r))
  | rejected {v : Val} {r : Rejection} (writes : a.value? = some v)
      (fails : c.serializer.encode v = .error r) {p : Result Reply} (quiet : p.Quiet)
      (refused : p.Yields (· = .error (.serialization r.text))) : Posed c a p
  | posed {p : Result Reply} (full : ¬ a.NamesNothing)
      (accepted : ∀ v, a.value? = some v → ∃ bs, c.serializer.encode v = .ok bs)
      (poses : Poses (c.Proper a.keys) p) : Posed c a p

/-- An operation that writes no value and takes no list. -/
theorem posed_reply {p : Result α} {f : α → Reply} (full : ¬ a.NamesNothing)
    (writes : a.value? = none) (poses : Poses (c.Proper a.keys) p) : Posed c a (reply p f) :=
  .posed full (by simp [writes]) (poses.andThen fun _ => trivial)

theorem posed_encoded {v : Val} {f : Bytes → Result α} {g : α → Reply} (full : ¬ a.NamesNothing)
    (writes : a.value? = some v) (poses : ∀ bs, Poses (c.Proper a.keys) (f bs)) :
    Posed c a (reply (c.encoded v f) g) := by
  unfold encoded
  split
  next bs accepted =>
      refine .posed full ?_ ((poses bs).andThen fun _ => trivial)
      intro w same
      rw [writes] at same
      cases same
      exact ⟨bs, accepted⟩
  next r fails =>
      refine .rejected writes fails (quiet_andThen (quiet_refused r) fun _ => trivial) ?_
      apply (yields_refused r).bind
      rintro _ rfl
      rfl

section Operations

variable (c) (key field : String)

theorem poses_get : Poses (c.Proper [key]) (c.get key) := by
  unfold get
  apply (poses_query _ _).andThen
  · exact fun found => quiet_decodedIfFound _ found
  · split
    · exact proper_lasting rfl rfl
    · exact proper_timeless rfl rfl

theorem poses_fieldGet : Poses (c.Proper [key]) (c.fieldGet key field) := by
  apply Poses.andThen
  · unfold fieldBytes
    split
    · exact poses_lasting rfl rfl fun _ => trivial
    · exact poses_query (proper_timeless rfl rfl) _
  · exact fun found => quiet_decodedIfFound _ found

theorem poses_fieldTtl : Poses (c.Proper [key]) (c.fieldTtl key field) := by
  apply poses_timeless rfl rfl
  intro codes
  split <;> trivial

theorem posed_setFor (v : Val) (ttl : Span) (keys : a.keys = [key]) (writes : a.value? = some v)
    (full : ¬ a.NamesNothing) : Posed c a (reply (c.setFor key v ttl) fun _ => .done) := by
  apply posed_encoded full writes
  intro bs
  rw [keys]
  split
  · exact poses_timeless rfl rfl fun _ => trivial
  · exact poses_lasting rfl rfl fun _ => trivial

theorem posed_fieldSetFor (v : Val) (ttl : Span) (keys : a.keys = [key])
    (writes : a.value? = some v) (full : ¬ a.NamesNothing) :
    Posed c a (reply (c.fieldSetFor key field v ttl) fun _ => .done) := by
  apply posed_encoded full writes
  intro bs
  rw [keys]
  split
  · exact poses_timeless rfl rfl fun _ => trivial
  · exact poses_lasting rfl rfl fun _ => trivial

theorem posed_deleteAll (keys : List String) :
    Posed c (.deleteAll keys) (reply (c.deleteAll keys) .count) := by
  unfold deleteAll
  split
  next empty =>
      have none : (Action.deleteAll keys).NamesNothing := List.isEmpty_iff.mp empty
      exact .nothing none _
  next full =>
      refine posed_reply (fun none => full (List.isEmpty_iff.mpr none)) rfl ?_
      exact (poses_query ⟨rfl, fun t given => by cases given⟩ _).andThen fun _ => trivial

theorem posed_fieldDelete (names : List String) :
    Posed c (.fieldDelete key names) (reply (c.fieldDelete key names) fun _ => .done) := by
  unfold fieldDelete
  split
  next empty =>
      have none : (Action.fieldDelete key names).NamesNothing := List.isEmpty_iff.mp empty
      exact .nothing none _
  next full =>
      refine posed_reply (fun none => full (List.isEmpty_iff.mpr none)) rfl ?_
      exact poses_timeless rfl rfl fun _ => trivial

end Operations

theorem posed_plan (c : Engine) (a : Action) : Posed c a (c.plan a) := by
  cases a with
  | get key => exact posed_reply id rfl (c.poses_get key)
  | set key v => exact c.posed_setFor key v _ rfl rfl id
  | setFor key v ttl => exact c.posed_setFor key v ttl rfl rfl id
  | deleteAll keys => exact c.posed_deleteAll keys
  | fieldSet key field v => exact c.posed_fieldSetFor key field v _ rfl rfl id
  | fieldSetFor key field v ttl => exact c.posed_fieldSetFor key field v ttl rfl rfl id
  | fieldGet key field => exact posed_reply id rfl (c.poses_fieldGet key field)
  | fields key =>
      refine posed_reply id rfl (poses_timeless rfl rfl ?_)
      exact fun found => quiet_andThen (quiet_decodedFields _ found) fun _ => trivial
  | fieldDelete key names => exact c.posed_fieldDelete key names
  | fieldTtl key field => exact posed_reply id rfl (c.poses_fieldTtl key field)
  | delete | increment | decrement =>
      exact posed_reply id rfl (poses_timeless rfl rfl fun _ => trivial)
  | expire | fieldExpire =>
      exact posed_reply id rfl (poses_lasting rfl rfl fun _ => trivial)

theorem poses_isAlive : Poses (· = .ping) Cache.isAlive := by
  apply Poses.andThen
  · apply poses_query
    rfl
  · exact fun _ => trivial

/-- Every command of an operation is on the keys of the operation, behind the name of the cache. -/
theorem asks_plan (c : Engine) (a : Action) :
    (c.plan a).Asks fun command => command.keys = c.keys.qualifyAll a.keys := by
  have posed := c.posed_plan a
  generalize c.plan a = p at posed ⊢
  cases posed with
  | nothing empty r => trivial
  | rejected writes fails quiet refused => exact quiet.asks
  | posed full accepted poses => exact poses.asks fun d proper => proper.keys

theorem isSent_eq_false_iff {o : Outcome} :
    o.isSent = false ↔ ∃ why, o = .error (.unconnected why) := by
  constructor
  · intro unsent
    obtain (why | r | reason) | answer := o
    · exact ⟨why, rfl⟩
    all_goals cases unsent
  · rintro ⟨why, rfl⟩
    rfl

theorem commands_of_trace {p : Plan α} {link : Link σ} {s : σ} {command : Command} {o : Outcome}
    (single : p.trace link s = [.asked command o]) :
    (p.run link s).commands = if o.isSent then [command] else [] := by
  rw [commands_run, single]
  cases sent : o.isSent <;> simp [Happening.event?, Event.command?, sent]

/-- How the plan of an operation is carried out over a link. The trace tells a command for which no
connection was had from one that was sent. -/
structure Frugal (c : Engine) (a : Action) (p : Result Reply) (link : Link σ) (s : σ) : Prop where
  /-- No command is asked for again. -/
  asked_once : (p.trace link s).length ≤ 1
  sent_once : (p.run link s).commands.length ≤ 1
  unsent_iff : (p.run link s).commands = [] ↔
    a.NamesNothing ∨ (∃ v r, a.value? = some v ∧ c.serializer.encode v = .error r) ∨
      ∃ command why, p.trace link s = [.asked command (.error (.unconnected why))]
  rejected : ∀ v r, a.value? = some v → c.serializer.encode v = .error r →
    (p.run link s).value = .error (.serialization r.text)
  unconnected : ∀ command why, p.trace link s = [.asked command (.error (.unconnected why))] →
    (p.run link s).value = .error (.backend ("Failed to get Redis connection: " ++ why.message))
  proper : ∀ command o, .asked command o ∈ p.trace link s → c.Proper a.keys command
  /-- The caller's keys come back from the words of a command. -/
  keys_sent : ∀ command o, .asked command o ∈ p.trace link s →
    Command.keyWords command.words = (c.keys.qualifyAll a.keys).map Utf8.encode ∧
      (c.keys.qualifyAll a.keys).map c.keys.unqualify? = a.keys.map some

theorem Proper.keys_sent {keys : List String} {command : Command} (h : c.Proper keys command) :
    Command.keyWords command.words = (c.keys.qualifyAll keys).map Utf8.encode ∧
      (c.keys.qualifyAll keys).map c.keys.unqualify? = keys.map some := by
  constructor
  · rw [command.keyWords_words, h.keys]
  · rw [KeySpace.qualifyAll, List.map_map]
    exact List.map_congr_left fun key _ => c.keys.unqualify?_qualify key

theorem not_writes_of_namesNothing (empty : a.NamesNothing) : a.value? = none := by
  cases a <;> first | rfl | exact empty.elim

theorem Posed.frugal {p : Result Reply} (posed : Posed c a p) (link : Link σ) (s : σ) :
    c.Frugal a p link s := by
  cases posed with
  | nothing empty r =>
      refine ⟨Nat.zero_le _, Nat.zero_le _, iff_of_true rfl (.inl empty), ?_, ?_, ?_, ?_⟩
      · intro v e writes
        rw [not_writes_of_namesNothing empty] at writes
        cases writes
      · intro command why traced
        cases traced
      all_goals
        intro command o asked
        cases asked
  | rejected writes fails quiet refused =>
      have silent := quiet.trace_eq_nil link s
      have unsent : (p.run link s).commands = [] := by
        rw [commands_run, silent]
        rfl
      refine ⟨?_, ?_, iff_of_true unsent (.inr (.inl ⟨_, _, writes, fails⟩)), ?_, ?_, ?_, ?_⟩
      · rw [silent]
        exact Nat.zero_le _
      · rw [unsent]
        exact Nat.zero_le _
      · intro v r same fails'
        rw [writes] at same
        cases same
        rw [fails] at fails'
        cases fails'
        exact refused.value link s
      all_goals
        simp [silent]
  | posed full accepted poses =>
      obtain ⟨command, o, single, proper, fault⟩ := poses.trace_eq link s
      have accepts : ∀ v r, a.value? = some v → c.serializer.encode v ≠ .error r := by
        intro v r writes fails
        obtain ⟨bs, encoded⟩ := accepted v writes
        rw [fails] at encoded
        cases encoded
      refine ⟨?_, ?_, ?_, ?_, ?_, ?_, ?_⟩
      · rw [single]
        exact Nat.le_refl 1
      · rw [commands_of_trace single]
        split
        · exact Nat.le_refl 1
        · exact Nat.zero_le 1
      · rw [commands_of_trace single, single]
        cases sent : o.isSent with
        | true =>
            refine iff_of_false (List.cons_ne_nil _ _) ?_
            rintro (empty | ⟨v, r, writes, fails⟩ | ⟨command', why, same⟩)
            · exact full empty
            · exact accepts v r writes fails
            · cases same
              cases sent
        | false =>
            obtain ⟨why, rfl⟩ := isSent_eq_false_iff.mp sent
            exact iff_of_true rfl (.inr (.inr ⟨command, why, rfl⟩))
      · intro v r writes fails
        exact absurd fails (accepts v r writes)
      · intro command' why same
        rw [single] at same
        cases same
        exact fault why rfl
      · intro command' o' asked
        rw [single] at asked
        cases List.mem_singleton.mp asked
        exact proper
      · intro command' o' asked
        rw [single] at asked
        cases List.mem_singleton.mp asked
        exact proper.keys_sent

end Engine

variable {σ : Type} {q : Quorum} {key : String} {P : Command → Prop}

theorem asks_letGo {replicas : List String} {token : String}
    (own : ∀ r ∈ replicas, P (.release r token)) : (letGo replicas token).Asks P := by
  refine ⟨?_, fun os => (Plan.quiet_logLines _).asks⟩
  intro command member
  obtain ⟨r, held, rfl⟩ := List.mem_map.mp member
  exact own r held

namespace Lease

theorem asks_finish {l : Lease} (own : ∀ r ∈ l.held, P (.release r l.token)) :
    l.finish.Asks P :=
  (asks_letGo own).bind fun _ => trivial

theorem asks_react {l : Lease}
    (renewals : ∀ r ∈ l.held, P (.extend r l.token (milliseconds l.validity)))
    (releases : ∀ r ∈ l.held, P (.release r l.token)) (prompt : Prompt) :
    (l.react prompt).Asks P := by
  have finish := (asks_finish releases).bind (f := fun _ => .done false) fun _ => trivial
  cases prompt with
  | stop => exact finish
  | due =>
      refine ⟨?_, ?_⟩
      · intro command member
        obtain ⟨r, held, rfl⟩ := List.mem_map.mp member
        exact renewals r held
      · intro os
        simp only [bind, pure, Plan.bind]
        split
        · exact finish
        · trivial

end Lease

namespace Quorum

/-- A command on a replica of a lock. -/
structure Confines (q : Quorum) (key : String) (command : Command) : Prop where
  replica : ∃ i < 2 * q.majority - 1, command.keys = [q.keys.replicaKey key i]
  ttl : ∀ t, command.ttl? = some t → 1 ≤ t

theorem confines_of_mem {r : String} {command : Command} (own : command.keys = [r])
    (lasting : command.ttl? = none ∨ ∃ d, command.ttl? = some (milliseconds d))
    (member : r ∈ q.replicas key) : q.Confines key command := by
  constructor
  · obtain ⟨i, small, rfl⟩ := List.mem_map.mp member
    exact ⟨i, List.mem_range.mp small, own⟩
  · exact Command.ttl_pos lasting

theorem asks_round {token : String}
    (acquires : ∀ r ∈ q.replicas key, P (.acquire r token (milliseconds q.validity)))
    (releases : ∀ r ∈ q.replicas key, P (.release r token)) : (q.round key token).Asks P := by
  intro started
  refine ⟨?_, ?_⟩
  · intro command member
    obtain ⟨r, replica, rfl⟩ := List.mem_map.mp member
    exact acquires r replica
  · intro os
    apply (Plan.quiet_logLines _).asks.bind
    intro _ now
    apply Plan.Asks.bind (p := pure now) trivial
    intro now
    split
    · trivial
    · refine Plan.Asks.bind (asks_letGo ?_) fun _ => trivial
      intro r taken
      exact releases r ((held_sublist _ _).subset taken)

/-- A round ends in the verdict on what became of its replicas. -/
theorem yields_round (q : Quorum) (key token : String) :
    (q.round key token).Yields fun v => ∃ (os : List Outcome) (elapsed : Nat),
      v = Round.verdict ((q.replicas key).zip (os.map Mark.ofOutcome)) q.majority q.validity
        elapsed := by
  apply (Plan.yields_any _).bind
  intro started _
  apply (Plan.yields_any _).bind
  intro os _
  apply (Plan.yields_any _).bind
  intro _ _
  apply (Plan.yields_any _).bind
  intro now _
  split
  next verdict => exact ⟨os, _, verdict.symm⟩
  next =>
      apply (Plan.yields_any _).bind
      intro _ _
      exact ⟨os, _, rfl⟩

/-- A lease that a plan ends in holds replicas of the lock. -/
def Leases (q : Quorum) (key : String) (r : Except Fault Lease) : Prop :=
  ∀ l, r = .ok l → ∀ r ∈ l.held, r ∈ q.replicas key

theorem asks_tryLock_of
    (acquires : ∀ r ∈ q.replicas key, ∀ token, P (.acquire r token (milliseconds q.validity)))
    (releases : ∀ r ∈ q.replicas key, ∀ token, P (.release r token)) :
    (q.tryLock key).Asks P := by
  intro token
  apply Plan.Asks.bind (p := pure token) trivial
  intro token
  apply (asks_round (fun r replica => acquires r replica token)
    fun r replica => releases r replica token).bind
  intro v
  cases v <;> trivial

theorem asks_tryLock (q : Quorum) (key : String) : (q.tryLock key).Asks (q.Confines key) :=
  asks_tryLock_of (fun _ replica _ => confines_of_mem rfl (.inr ⟨_, rfl⟩) replica)
    fun _ replica _ => confines_of_mem rfl (.inl rfl) replica

theorem yields_tryLock (q : Quorum) (key : String) : (q.tryLock key).Yields (q.Leases key) := by
  intro token
  apply (Plan.yields_any (pure token)).bind
  intro token _
  apply (q.yields_round key token).bind
  rintro v ⟨os, elapsed, told⟩
  cases v with
  | acquired held =>
      rintro l ⟨rfl⟩
      obtain ⟨-, rfl⟩ := (verdict_acquired_iff _ _ _ _ _).mp told.symm
      exact fun r taken => (held_sublist _ _).subset taken
  | busy =>
      rintro l ⟨⟩
  | failed f =>
      rintro l ⟨⟩

theorem asks_lock_of (asks : (q.tryLock key).Asks P) (rounds : Nat) :
    (q.lock key rounds).Asks P := by
  induction rounds with
  | zero => trivial
  | succ rounds ih =>
      apply asks.bind
      intro r
      split
      · exact ih
      · trivial

theorem asks_lock (q : Quorum) (key : String) (rounds : Nat) :
    (q.lock key rounds).Asks (q.Confines key) :=
  asks_lock_of (q.asks_tryLock key) rounds

theorem yields_lock_of {Q : Except Fault Lease → Prop} (yields : (q.tryLock key).Yields Q)
    (missed : Q (.error .notLocked)) (rounds : Nat) : (q.lock key rounds).Yields Q := by
  induction rounds with
  | zero => exact missed
  | succ rounds ih =>
      apply yields.bind
      intro r told
      split
      · exact ih
      · exact told

theorem yields_lock (q : Quorum) (key : String) (rounds : Nat) :
    (q.lock key rounds).Yields (q.Leases key) :=
  yields_lock_of (q.yields_tryLock key) nofun rounds

/-- A plan that takes a lock keeps to its replicas, and so does every lease that it ends in. -/
structure Keeps (q : Quorum) (key : String) (p : Plan (Except Fault Lease)) (link : Link σ) (s : σ) :
    Prop where
  taking : ∀ command o, .asked command o ∈ p.trace link s → q.Confines key command
  tending : ∀ l, (p.run link s).value = .ok l → ∀ (prompt : Prompt) (later : σ) command o,
    .asked command o ∈ (l.react prompt).trace link later → q.Confines key command

theorem keeps_of_asks {p : Plan (Except Fault Lease)} (asks : p.Asks (q.Confines key))
    (yields : p.Yields (q.Leases key)) (link : Link σ) (s : σ) : q.Keeps key p link s := by
  refine ⟨fun command o asked => asks.of_mem_trace asked, ?_⟩
  intro l taken prompt later command o asked
  have within := yields.value link s l taken
  apply Plan.Asks.of_mem_trace _ asked
  apply Lease.asks_react
  · exact fun r held => confines_of_mem rfl (.inr ⟨_, rfl⟩) (within r held)
  · exact fun r held => confines_of_mem rfl (.inl rfl) (within r held)

end Quorum

/-- Over any link and with any serializer, an operation sends one command at most and works on its
own keys; taking a lock and tending it works on the replicas of that lock. -/
theorem one_command_on_own_keys (config : Config) (serializer : Serializer) {σ : Type}
    (link : Link σ) (s : σ) :
    let c := Engine.ofConfig config serializer
    (∀ a, c.Frugal a (c.plan a) link s) ∧
      (∃ o, Cache.isAlive.trace link s = [.asked .ping o]) ∧
      c.quorum.keys = c.keys ∧
      ∀ key, c.quorum.Keeps key (c.quorum.tryLock key) link s ∧
        ∀ rounds, c.quorum.Keeps key (c.quorum.lock key rounds) link s := by
  intro c
  refine ⟨fun a => (c.posed_plan a).frugal link s, ?_, rfl, ?_⟩
  · obtain ⟨command, o, single, rfl, -⟩ := Engine.poses_isAlive.trace_eq link s
    exact ⟨o, single⟩
  · intro key
    refine ⟨Quorum.keeps_of_asks (Quorum.asks_tryLock _ _) (Quorum.yields_tryLock _ _) link s, ?_⟩
    intro rounds
    exact Quorum.keeps_of_asks (Quorum.asks_lock _ _ _) (Quorum.yields_lock _ _ _) link s

end Remote
end CacheFacade
