import CacheFacade.Proofs.Keys
import CacheFacade.Proofs.Remote.Stages
import Mathlib.Data.List.Nodup

/-!
A round that finds every replica vacant and has every answer takes the lock on all replicas. Such
rounds show that states are reached: the only thing asked of the other clients is that they stand
still meanwhile.
-/

namespace CacheFacade
namespace Remote

theorem Quorum.nodup_replicas (q : Quorum) (key : String) : (q.replicas key).Nodup :=
  List.nodup_range.map fun _ _ same => (KeySpace.replicaKey_eq_replicaKey_iff.mp same).2

@[simp] theorem Quorum.length_replicas (q : Quorum) (key : String) :
    (q.replicas key).length = q.size := by
  simp [Quorum.replicas]

theorem held_of_okay (replicas : List String) :
    Round.held (replicas.zip ((replicas.map fun _ => (.ok .okay : Outcome)).map Mark.ofOutcome)) =
      replicas := by
  induction replicas with
  | nil => rfl
  | cons r replicas ih =>
      have taken : Mark.ofOutcome (.ok .okay) = .taken := rfl
      simp only [Round.held, List.map_cons, List.zip_cons_cons, taken, List.filter_cons] at ih ⊢
      simpa using ih

theorem modify_append_cons {α : Type} (f : α → α) (before : List α) (a : α) (after : List α) :
    (before ++ a :: after).modify before.length f = before ++ f a :: after := by
  induction before with
  | nil => rfl
  | cons b before ih => exact congrArg (b :: ·) ih

/-- The lock as a round takes it when every replica confirms. -/
def Grant.whole (q : Quorum) (key token : String) (v : Span) (begun granted : Nat) : Grant :=
  let l : Lease := ⟨q.keys.qualify key, token, q.replicas key, q.majority, v⟩
  ⟨l, begun, granted, granted + l.period.nanos⟩

/-- The other clients stand still, and this one does not have the lock. -/
structure Undisturbed (s : Contest) (i : Nat) (u : Contest) : Prop where
  own : (u.clients i).grant? = none
  others : ∀ j, j ≠ i → u.clients j = s.clients j
  signalled : u.signalled = s.signalled

structure Permits (allowed : Contest → Move → Prop) (s : Contest) (i : Nat) (v : Span)
    (token : String) (delay : Nat) : Prop where
  tryLock : ∀ u, Undisturbed s i u → allowed u (.tryLock i v token)
  serve : ∀ u, Undisturbed s i u → ∀ n, allowed u (.serve i n .answered)
  pass : ∀ u, Undisturbed s i u → u.registry.now = s.registry.now → allowed u (.pass delay)
  resume : ∀ u, Undisturbed s i u → allowed u (.resume i)

/-- An undisturbed round that has the answers of some replicas and waits for those of the rest. -/
structure Halfway (s : Contest) (i : Nat) (a : Attempt) (x : Exchange (Except Fault Lease))
    (done rest : List String) (u : Contest) : Prop where
  undisturbed : Undisturbed s i u
  stand : u.clients i = .trying a x
  errands : x.errands =
    done.map (fun r => ⟨.acquire r a.token (milliseconds a.validity), some (.ok .okay)⟩) ++
      rest.map fun r => .pending (.acquire r a.token (milliseconds a.validity))
  now : u.registry.now = s.registry.now
  drawn : u.drawn = a.token :: s.drawn
  written : ∀ r ∈ done,
    u.registry.tenures r = some (s.registry.grant a.token (milliseconds a.validity))
  vacant : ∀ r ∈ rest, u.registry.tenure? r = none

theorem Halfway.serve (q : Quorum) (key : String) {s u : Contest} {i : Nat} {a : Attempt}
    {x : Exchange (Except Fault Lease)} {done rest : List String} {r : String}
    (h : Halfway s i a x done (r :: rest) u)
    (nodup : (done ++ r :: rest).Nodup) :
    ∃ u' x', Turn q key u (.serve i done.length .answered) u' ∧ x'.next = x.next ∧
      Halfway s i a x' (done ++ [r]) rest u' := by
  have errand : (u.clients i).errands[done.length]? =
      some (.pending (.acquire r a.token (milliseconds a.validity))) := by
    rw [h.stand]
    simp [Client.errands, h.errands]
  have served : u.registry.serve (.acquire r a.token (milliseconds a.validity)) =
      (.okay, u.registry.assign r
        (some (u.registry.grant a.token (milliseconds a.validity)))) :=
    Registry.serve_acquire_vacant (h.vacant r List.mem_cons_self)
  have fresh : r ∉ done ∧ r ∉ rest := by
    simp only [List.nodup_append, List.nodup_cons] at nodup
    refine ⟨fun old => nodup.2.2 r old r List.mem_cons_self rfl, nodup.2.1.1⟩
  refine ⟨_, x.note done.length (.ok .okay), .serve .answered errand, rfl, ?_⟩
  simp only [Registry.meet, served, h.stand, Client.note]
  refine ⟨⟨?_, ?_, ?_⟩, ?_, ?_, ?_, h.drawn, ?_, ?_⟩
  · rw [advance_clients_self]
    rfl
  · intro j hj
    rw [advance_clients_of_ne _ _ _ hj]
    exact h.undisturbed.others j hj
  · exact h.undisturbed.signalled
  · rw [advance_clients_self]
  · have index : done.length = (done.map fun r => (⟨.acquire r a.token (milliseconds a.validity),
        some (.ok .okay)⟩ : Errand)).length := by
      rw [List.length_map]
    simp only [Exchange.note, h.errands, List.map_cons]
    rw [index, modify_append_cons]
    simp [Errand.pending]
  · exact h.now
  · intro r' hr'
    change (u.registry.assign r _).tenures r' = _
    obtain old | new := List.mem_append.mp hr'
    · have other : r' ≠ r := fun same => fresh.1 (same ▸ old)
      rw [Registry.assign_tenures_of_ne _ _ other, h.written r' old]
    · rw [List.mem_singleton.mp new, Registry.assign_tenures_self]
      simp [Registry.grant, h.now]
  · intro r' hr'
    have other : r' ≠ r := fun same => fresh.2 (same ▸ hr')
    have before := h.vacant r' (List.mem_cons_of_mem _ hr')
    simp only [Registry.tenure?] at before ⊢
    change ((u.registry.assign r _).tenures r').filter _ = none
    rw [Registry.assign_tenures_of_ne _ _ other]
    exact before

variable {q : Quorum} {key : String} {allowed : Contest → Move → Prop}

theorem Halfway.run {s u : Contest} {i : Nat} {a : Attempt} {x : Exchange (Except Fault Lease)}
    {done rest : List String} (h : Halfway s i a x done rest u) (reach : Reach q key allowed u)
    (nodup : (done ++ rest).Nodup)
    (may : ∀ u, Undisturbed s i u → ∀ n, allowed u (.serve i n .answered)) :
    ∃ u' x', Reach q key allowed u' ∧ x'.next = x.next ∧ Halfway s i a x' (done ++ rest) [] u' := by
  induction rest generalizing done u x with
  | nil => exact ⟨u, x, reach, rfl, by rwa [List.append_nil]⟩
  | cons r rest ih =>
      obtain ⟨u₁, x₁, step, hNext, half⟩ := h.serve q key nodup
      have split : done ++ r :: rest = (done ++ [r]) ++ rest := by simp
      rw [split] at nodup ⊢
      obtain ⟨u₂, x₂, reach₂, hNext₂, half₂⟩ :=
        ih half (reach.step (may u h.undisturbed _) step) nodup
      exact ⟨u₂, x₂, reach₂, hNext₂.trans hNext, half₂⟩

theorem Reach.undisturbed {s : Contest} (reach : Reach q key allowed s)
    (positive : 1 ≤ q.majority) {i : Nat} {v : Span} {token : String} {delay : Nat}
    (idle : s.clients i = .idle) (fresh : token ∉ s.drawn) (early : delay < v.nanos)
    (vacant : ∀ r ∈ q.replicas key, s.registry.tenure? r = none)
    (may : Permits allowed s i v token delay) :
    ∃ s', Reach q key allowed s' ∧ (∀ j, j ≠ i → s'.clients j = s.clients j) ∧
      s'.signalled = s.signalled ∧ s'.drawn = token :: s.drawn ∧
      s'.registry.now = s.registry.now + delay ∧
      s'.clients i = .holding
        (.whole q key token v s.registry.now (s.registry.now + delay)) ∧
      ∀ r ∈ q.replicas key,
        s'.registry.tenures r = some (s.registry.grant token (milliseconds v)) := by
  obtain ⟨x, run, hErrands, hConcludes⟩ :=
    settle_tryLock (q.lasting v) key token s.registry.now
  have calm : Undisturbed s i s := ⟨by rw [idle]; rfl, fun _ _ => rfl, rfl⟩
  have begun := reach.step (may.tryLock s calm) (.tryLock idle fresh run)
  have half : Halfway s i ⟨token, v, s.registry.now⟩ x [] (q.replicas key)
      ({ s with drawn := token :: s.drawn }.advance i []
        (.ofRound s.registry.now ⟨token, v, s.registry.now⟩ (.asking x))) := by
    refine ⟨⟨?_, ?_, rfl⟩, ?_, ?_, rfl, rfl, ?_, vacant⟩
    · rw [advance_clients_self]
      rfl
    · intro j hj
      rw [advance_clients_of_ne _ _ _ hj]
    · rw [advance_clients_self]
      rfl
    · rw [hErrands, List.map_map]
      rfl
    · intro r hr
      cases hr
  obtain ⟨u, y, reachU, hNext, whole⟩ := half.run begun (q.nodup_replicas key) may.serve
  have later := reachU.step (may.pass u whole.undisturbed whole.now) (.pass delay)
  have answered : y.Answered ((q.replicas key).map fun _ => .ok .okay) := by
    simp only [Exchange.Answered, whole.errands, List.map_nil, List.append_nil, List.nil_append,
      List.map_map]
    rfl
  have verdict := hConcludes (s.registry.now + delay) token
    ((q.replicas key).map fun _ => .ok .okay)
  rw [← hNext] at verdict
  have enough : q.majority ≤ (q.replicas key).length := by
    rw [Quorum.length_replicas, Quorum.size]
    omega
  have soon : s.registry.now + delay - s.registry.now < v.nanos := by
    omega
  have taken : Round.held (((q.lasting v).replicas key).zip
      (((q.replicas key).map fun _ => (.ok .okay : Outcome)).map Mark.ofOutcome)) =
      q.replicas key := held_of_okay (q.replicas key)
  simp only [taken] at verdict
  rw [if_pos ⟨enough, soon⟩] at verdict
  have now : (u.registry.pass delay).now = s.registry.now + delay :=
    congrArg (· + delay) whole.now
  refine ⟨_, later.step (may.resume _ ⟨whole.undisturbed.own, whole.undisturbed.others,
    whole.undisturbed.signalled⟩) (.resumeRound whole.stand answered (now ▸ verdict)),
    ?_, ?_, ?_, ?_, ?_, ?_⟩
  · intro j hj
    rw [advance_clients_of_ne _ _ _ hj]
    exact whole.undisturbed.others j hj
  · exact whole.undisturbed.signalled
  · exact whole.drawn
  · exact now
  · rw [advance_clients_self]
    simp only [now]
    rfl
  · exact whole.written

end Remote
end CacheFacade
