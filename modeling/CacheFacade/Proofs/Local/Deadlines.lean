import CacheFacade.Proofs.Local.Hits

/-!
Where the deadlines of a local cache come from. An operation either chooses a lifetime for what it
writes or keeps what is there; then the deadline is the one before, renewed if the operation looked
the key up in a cache that touches. Time, locks and the store itself move no deadline.
-/

namespace CacheFacade
namespace Local

namespace Cache

variable {c : Cache} {key : String} {e : Entry Item}

/-- The entry is one of the key, and live. -/
structure Holds (c : Cache) (key : String) (e : Entry Item) : Prop where
  member : e ∈ c.store.entries
  own : e.key = c.keys.qualify key
  live : e.isLive c.now = true

/-- The lifetime that an operation chooses for a key. It chooses none if it fails, if it removes
what is there, or if it only changes that. -/
def chosen? (c : Cache) (key : String) (a : Action) : Option Expiry :=
  if (c.effect? key a).isSome then
    match a with
    | .set _ _ => some (.ofTtl c.defaultTtl)
    | .setFor _ _ ttl | .fieldSetFor _ _ _ ttl => some (.ofTtl (some ttl))
    | .fieldSet _ _ _ => if c.finds key then none else some (.ofTtl c.defaultTtl)
    | .increment _ _ | .decrement _ _ => if c.finds key then none else some .never
    | _ => none
  else none

theorem holds_of_live? (found : c.store.live? (c.keys.qualify key) c.now = some e) :
    c.Holds key e := by
  obtain ⟨member, own, live⟩ := Store.mem_of_live? found
  exact ⟨member, own, live⟩

/-- The deadline of an entry of the key after an operation that chose no lifetime. -/
def dueKept (c : Cache) (key : String) (a : Action) (due : Option Nat) : Option Nat :=
  if a.looksUp key then touched c.now c.touch due else due

/-- Where an entry that stands after an operation has its deadline from. -/
inductive Source (c : Cache) (key : String) (a : Action) (e : Entry Item) : Prop
  | chosen (life : Expiry) (h : c.chosen? key a = some life)
      (same : e.deadline = life.deadline c.now none)
  | kept (h : c.chosen? key a = none) (old : Entry Item) (held : c.Holds key old)
      (same : e.deadline = c.dueKept key a old.deadline)
  /-- It was past its deadline, and nothing was written over it. -/
  | stale (h : c.chosen? key a = none) (member : e ∈ c.store.entries)
      (past : e.isLive c.now = false)

theorem chosen?_of_effect?_eq_none {a : Action} (h : c.effect? key a = none) :
    c.chosen? key a = none := by
  simp [chosen?, h]

theorem Source.of_unchanged {a : Action} (looks : a.looksUp key = false)
    (h : c.chosen? key a = none) (member : e ∈ c.store.entries)
    (own : e.key = c.keys.qualify key) : Source c key a e := by
  cases live : e.isLive c.now with
  | true =>
      refine .kept h e ⟨member, own, live⟩ ?_
      rw [dueKept, looks]
      rfl
  | false => exact .stale h member live

theorem Source.of_lookUp {a : Action} {d : Cache} (state : d = (c.lookUp (c.keys.qualify key)).2)
    (looks : a.looksUp key = true) (h : c.chosen? key a = none) (member : e ∈ d.store.entries)
    (own : e.key = c.keys.qualify key) : Source c key a e := by
  rw [state] at member
  obtain ⟨there, other⟩ | ⟨old, found, rfl⟩ := Store.mem_read member
  · exact .stale h there (Bool.eq_false_iff.mpr fun live => other live own)
  · refine .kept h old (holds_of_live? found) ?_
    rw [dueKept, if_pos looks]

theorem Source.of_rewrite {a : Action} {d : Cache} {item : Item} {life : Expiry}
    (state : d = (c.lookUp (c.keys.qualify key)).2.put (c.keys.qualify key) item life)
    (looks : a.looksUp key = true)
    (h : c.chosen? key a = some life ∧ life ≠ .keep ∨
      c.chosen? key a = none ∧ life = .keep ∧ c.finds key = true)
    (member : e ∈ d.store.entries) (own : e.key = c.keys.qualify key) : Source c key a e := by
  rw [state] at member
  obtain ⟨-, other⟩ | rfl := Store.mem_write member
  · exact absurd own other
  · obtain ⟨chosen, fresh⟩ | ⟨none, rfl, there⟩ := h
    · exact .chosen life chosen (Expiry.deadline_of_ne_keep fresh _ _)
    · obtain ⟨old, found⟩ := Option.isSome_iff_exists.mp there
      refine .kept none old (holds_of_live? found) ?_
      have left : (c.lookUp (c.keys.qualify key)).2.store.find? (c.keys.qualify key) =
          some { old with deadline := touched c.now c.touch old.deadline } :=
        Store.find?_read_of_live? found
      rw [left, dueKept, if_pos looks]
      rfl

theorem Source.of_put {a : Action} {item : Item} {life : Expiry}
    (chosen : c.chosen? key a = some life) (fresh : life ≠ .keep)
    (member : e ∈ (c.put (c.keys.qualify key) item life).store.entries)
    (own : e.key = c.keys.qualify key) : Source c key a e := by
  obtain ⟨-, other⟩ | rfl := Store.mem_write member
  · exact absurd own other
  · exact .chosen life chosen (Expiry.deadline_of_ne_keep fresh _ _)

/-- What is written has a lifetime that the operation chose, unless it keeps the one that was found. -/
theorem chosen?_cases {a : Action} (h : (c.effect? key a).isSome = true) :
    (c.chosen? key a = some (c.lifeGiven key a) ∧ c.lifeGiven key a ≠ .keep) ∨
      c.chosen? key a = none ∧ c.lifeGiven key a = .keep := by
  unfold chosen?
  rw [if_pos h]
  cases a with
  | set k v => exact .inl ⟨rfl, Expiry.ofTtl_ne_keep _⟩
  | setFor k v ttl | fieldSetFor k _ v ttl => exact .inl ⟨rfl, Expiry.ofTtl_ne_keep (some ttl)⟩
  | fieldSet k field v =>
      cases finds : c.finds key with
      | true => simp [lifeGiven, finds]
      | false => simp [lifeGiven, finds, Expiry.ofTtl_ne_keep]
  | increment k delta | decrement k delta =>
      cases finds : c.finds key with
      | true => simp [lifeGiven, finds]
      | false => simp [lifeGiven, finds]
  | _ => exact .inr ⟨rfl, rfl⟩

theorem of_chosen {a : Action} {life : Expiry} (h : c.chosen? key a = some life) :
    life = c.lifeGiven key a ∧ life ≠ .keep := by
  cases effect : c.effect? key a with
  | none =>
      rw [chosen?_of_effect?_eq_none effect] at h
      cases h
  | some e =>
      obtain ⟨chosen, fresh⟩ | ⟨none, -⟩ := chosen?_cases (Option.isSome_of_eq_some effect)
      · cases h.symm.trans chosen
        exact ⟨rfl, fresh⟩
      · cases h.symm.trans none

/-- Every entry of a key that stands after an operation has a deadline that the operation chose, or
was there before. -/
theorem Source.of_run (a : Action) (member : e ∈ (c.run a).state.store.entries)
    (own : e.key = c.keys.qualify key) : Source c key a e := by
  by_cases named : key ∈ a.keys
  · have same : ∀ {k : String}, a.keys = [k] → key = k := by
      intro k single
      exact List.mem_singleton.mp (single ▸ named)
    have turn := c.turn_run a
    generalize (c.run a).state = d at turn member
    cases turn with
    | idle effects looks =>
        exact .of_unchanged (looks key) (chosen?_of_effect?_eq_none (effects key)) member own
    | seen single looks none =>
        cases same single
        exact .of_lookUp rfl looks (chosen?_of_effect?_eq_none none) member own
    | missed single looks effect keeps missing =>
        cases same single
        obtain ⟨-, fresh⟩ | ⟨unchosen, -⟩ := chosen?_cases (Option.isSome_of_eq_some effect)
        · exact absurd keeps fresh
        · exact .of_lookUp rfl looks unchosen member own
    | put single looks effect fresh =>
        cases same single
        obtain ⟨chosen, -⟩ | ⟨-, keep⟩ := chosen?_cases (Option.isSome_of_eq_some effect)
        · exact .of_put chosen fresh member own
        · exact absurd keep fresh
    | rewritten single looks effect made found =>
        cases same single
        refine .of_rewrite rfl looks ?_ member own
        obtain chosen | ⟨none, keep⟩ := chosen?_cases (Option.isSome_of_eq_some effect)
        · exact .inl chosen
        · exact .inr ⟨none, keep, found keep⟩
    | emptied single looks effect there left =>
        cases same single
        exact absurd own (Store.mem_remove.mp member).2
    | removed effects looks =>
        exact absurd (own ▸ List.mem_map_of_mem named) (mem_removeAll member).2
  · obtain ⟨none, looks⟩ := spared_of_not_named (c := c) named
    have other : c.keys.qualify key ∉ a.keys.map c.keys.qualify := by
      intro h
      obtain ⟨k, hk, same⟩ := List.mem_map.mp h
      exact named (KeySpace.qualify_injective _ same ▸ hk)
    exact .of_unchanged looks (chosen?_of_effect?_eq_none none)
      ((c.works_run a).spares other member own) own

end Cache

namespace State

variable {s : State} {key : String} {e : Entry Item}

theorem alike_step (s : State) (d : Operation) :
    (s.step d).cache = { s.cache with
      now := (s.step d).cache.now
      store := (s.step d).cache.store
      locks := (s.step d).cache.locks } := by
  have turn := s.cacheStep d
  generalize (s.step d).cache = c at turn ⊢
  cases turn with
  | act a =>
      have same := s.cache.alike_run a
      generalize (s.cache.run a).state = d at same ⊢
      rw [same]
  | _ => rfl

theorem keys_step (s : State) (d : Operation) : (s.step d).cache.keys = s.cache.keys := by
  rw [alike_step]

theorem now_le_step (s : State) (d : Operation) : s.cache.now ≤ (s.step d).cache.now := by
  have turn := s.cacheStep d
  generalize (s.step d).cache = c at turn ⊢
  cases turn with
  | act a =>
      have same : (s.cache.run a).state.now = s.cache.now := by rw [s.cache.alike_run a]
      exact Nat.le_of_eq same.symm
  | sleep span => exact Nat.le_add_right ..
  | _ => exact Nat.le_refl _

/-- Only operations write entries; time, locks and the store itself at most drop some. -/
theorem mem_of_mem_step {d : Operation} (quiet : ∀ a, d ≠ .act a)
    (member : e ∈ (s.step d).cache.store.entries) : e ∈ s.cache.store.entries := by
  have turn := s.cacheStep d
  generalize (s.step d).cache = c at turn member
  cases turn with
  | act a => exact absurd rfl (quiet a)
  | sleep span => exact (Store.pass_sublist ..).subset member
  | lose gone => exact (List.mem_filter.mp member).1
  | locked awake locks => exact member
  | emptied awake locks => cases member

/-- The deadline that an operation fixes for a key by choosing a lifetime for it. -/
def fixed? (s : State) (key : String) : Operation → Option (Option Nat)
  | .act a => (s.cache.chosen? key a).map fun life => life.deadline s.cache.now none
  | _ => none

def dueKept (s : State) (key : String) : Operation → Option Nat → Option Nat
  | .act a, due => s.cache.dueKept key a due
  | _, due => due

/-- An entry that stands after an operation has the deadline that the operation fixed, or one from
before. -/
theorem stored_step {d : Operation} (member : e ∈ (s.step d).cache.store.entries)
    (own : e.key = s.cache.keys.qualify key) :
    s.fixed? key d = some e.deadline ∨
      s.fixed? key d = none ∧
        ((∃ old, s.cache.Holds key old ∧ e.deadline = s.dueKept key d old.deadline) ∨
          e ∈ s.cache.store.entries ∧ e.isLive s.cache.now = false) := by
  have quiet : (∀ a, d ≠ .act a) ∨ ∃ a, d = .act a := by
    cases d with
    | act a => exact .inr ⟨a, rfl⟩
    | _ => exact .inl fun _ => Operation.noConfusion
  obtain quiet | ⟨a, rfl⟩ := quiet
  · have still : s.fixed? key d = none ∧ s.dueKept key d = id := by
      cases d with
      | act a => exact absurd rfl (quiet a)
      | _ => exact ⟨rfl, rfl⟩
    have before := mem_of_mem_step quiet member
    refine .inr ⟨still.1, ?_⟩
    cases live : e.isLive s.cache.now with
    | true => exact .inl ⟨e, ⟨before, own, live⟩, by rw [still.2]; rfl⟩
    | false => exact .inr ⟨before, rfl⟩
  · cases Cache.Source.of_run a member own with
    | chosen life chosen same =>
        left
        rw [fixed?, chosen, same]
        rfl
    | kept none old held same =>
        refine .inr ⟨?_, .inl ⟨old, held, same⟩⟩
        rw [fixed?, none]
        rfl
    | stale none before past =>
        refine .inr ⟨?_, .inr ⟨before, past⟩⟩
        rw [fixed?, none]
        rfl

/-- One that is live after an operation was not past its deadline before. -/
theorem held_step {d : Operation} (held : (s.step d).cache.Holds key e) :
    s.fixed? key d = some e.deadline ∨
      s.fixed? key d = none ∧
        ∃ old, s.cache.Holds key old ∧ e.deadline = s.dueKept key d old.deadline := by
  have own := held.own
  rw [keys_step] at own
  obtain fixed | ⟨none, kept | ⟨-, past⟩⟩ := stored_step held.member own
  · exact .inl fixed
  · exact .inr ⟨none, kept⟩
  · rw [Entry.isLive_of_le (s.now_le_step d) held.live] at past
    cases past

theorem deadline_eq_of_holds (c : Config) (ops : List Operation) {e e' : Entry Item}
    (held : ((opened c).after ops).cache.Holds key e)
    (held' : ((opened c).after ops).cache.Holds key e') : e.deadline = e'.deadline := by
  have vouched := vouches_after c key ops
  have first := vouched e held.member held.own held.live
  have second := vouched e' held'.member held'.own held'.live
  exact first.deadline.trans second.deadline.symm

theorem touch_after (c : Config) (ops : List Operation) :
    ((opened c).after ops).cache.touch = if c.touch then c.ttl else none := by
  induction ops with
  | nil => rfl
  | cons d past ih => exact (touch_step _ d).trans ih

end State

end Local
end CacheFacade
