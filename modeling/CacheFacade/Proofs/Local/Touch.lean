import CacheFacade.Proofs.Local.Lasting

/-!
What moves the deadlines of a local cache that touches. A read that shows something renews an entry,
and a write may choose a lifetime of its own. Nothing else should move a deadline, but every
operation that looks a key up renews it: also a write that keeps what is there, a look that shows
nothing, and an operation that fails after its look.
-/

namespace CacheFacade
namespace Local

/-- The operation reads the key and answers with what it found there. -/
def Cache.shows (c : Cache) (key : String) (a : Action) : Bool :=
  match a, (c.run a).result with
  | .get k, .ok (.found (some _)) => k == key
  | .fieldGet k _, .ok (.found (some _)) => k == key
  | .fields k, .ok (.fields _) => k == key
  | _, _ => false

/-- The deadline that an entry of the key should have after an operation: a read that shows it
renews it, a write may choose another one, and nothing else moves it. -/
def Cache.dueByLaw (c : Cache) (key : String) (a : Action) (due : Option Nat) : Option Nat :=
  if c.shows key a then touched c.now c.touch due
  else
    match c.chosen? key a with
    | some life => life.deadline c.now due
    | none => due

/-- The operation looks the key up, but neither to show what is there nor to give it a lifetime. -/
def Cache.strays (c : Cache) (key : String) (a : Action) : Bool :=
  a.looksUp key && !c.shows key a && (c.chosen? key a).isNone

namespace Cache

variable {c : Cache} {key : String} {a : Action} {life : Expiry}

theorem looksUp_of_shows (h : c.shows key a = true) : a.looksUp key = true := by
  simp only [shows] at h
  split at h
  · exact h
  · exact h
  · exact h
  · cases h

theorem shows_eq_false_of_chosen (h : c.chosen? key a = some life) : c.shows key a = false := by
  cases a with
  | get k | fieldGet k _ =>
      rw [chosen?_of_effect?_eq_none rfl] at h
      cases h
  | fields k =>
      simp only [chosen?] at h
      split at h <;> cases h
  | _ => rfl

theorem dueByLaw_of_chosen (h : c.chosen? key a = some life) (due : Option Nat) :
    c.dueByLaw key a due = life.deadline c.now none := by
  simp only [dueByLaw, shows_eq_false_of_chosen h, h]
  exact Expiry.deadline_of_ne_keep (of_chosen h).2 _ _

/-- An operation that chooses no lifetime follows the law unless it strays. -/
theorem dueKept_of_not_strays (h : c.chosen? key a = none) (keeps : c.strays key a = false)
    (due : Option Nat) : c.dueKept key a due = c.dueByLaw key a due := by
  simp only [strays, h, Option.isNone_none, Bool.and_true] at keeps
  simp only [dueKept, dueByLaw, h]
  cases shows : c.shows key a with
  | true => rw [looksUp_of_shows shows]
  | false =>
      rw [shows, Bool.not_false, Bool.and_true] at keeps
      rw [keeps]

theorem of_strays (h : c.strays key a = true) (due : Option Nat) :
    c.chosen? key a = none ∧ c.dueKept key a due = touched c.now c.touch due ∧
      c.dueByLaw key a due = due := by
  simp only [strays, Bool.and_eq_true, Bool.not_eq_true', Option.isNone_iff_eq_none] at h
  obtain ⟨⟨looks, silent⟩, none⟩ := h
  refine ⟨none, if_pos looks, ?_⟩
  simp only [dueByLaw, silent, none]
  rfl

end Cache

namespace State

def dueByLaw (s : State) (key : String) : Operation → Option Nat → Option Nat
  | .act a, due => s.cache.dueByLaw key a due
  | _, due => due

def strays (s : State) (key : String) : Operation → Bool
  | .act a => s.cache.strays key a
  | _ => false

variable {key : String} {e e' : Entry Item}

theorem deadline_step {s : State} {d : Operation} (due : Option Nat)
    (before : ∀ old, s.cache.Holds key old → old.deadline = due)
    (after : (s.step d).cache.Holds key e') :
    e'.deadline =
      if s.strays key d then touched s.cache.now s.cache.touch due else s.dueByLaw key d due := by
  obtain fixed | ⟨none, old, there, same⟩ := held_step after
  · cases d with
    | act a =>
        obtain ⟨life, chosen, same⟩ := Option.map_eq_some_iff.mp fixed
        have keeps : s.strays key (.act a) = false := by
          simp [strays, Cache.strays, chosen]
        rw [keeps, if_neg Bool.false_ne_true, ← same]
        exact (Cache.dueByLaw_of_chosen chosen due).symm
    | _ => cases fixed
  · rw [same, before old there]
    cases d with
    | act a =>
        cases strays : s.strays key (.act a) with
        | true => exact (Cache.of_strays strays due).2.1
        | false =>
            have unchosen : s.cache.chosen? key a = Option.none := Option.map_eq_none_iff.mp none
            exact Cache.dueKept_of_not_strays unchosen strays due
    | _ => rfl

/-- Whatever is done next, the entries of the key have the deadlines that they should have. -/
def Lawful (s : State) (key : String) : Prop :=
  ∀ d e e', s.cache.Holds key e → (s.step d).cache.Holds key e' →
    e'.deadline = s.dueByLaw key d e.deadline

/-- In a cache that touches, an operation that strays renews the entry. So it keeps the law only
where the entry was renewed at the same instant. -/
theorem dueByLaw_iff_not_strays {c : Config} {span : Span} (touch : c.touch = true)
    (ttl : c.ttl = some span) (ops : List Operation) (d : Operation)
    (before : ((opened c).after ops).cache.Holds key e)
    (after : (((opened c).after ops).step d).cache.Holds key e') :
    (((opened c).after ops).strays key d = true →
      e'.deadline = some (((opened c).after ops).cache.now + span.nanos)) ∧
    (e'.deadline = ((opened c).after ops).dueByLaw key d e.deadline ↔
      ((opened c).after ops).strays key d = false ∨
        e.deadline = some (((opened c).after ops).cache.now + span.nanos)) := by
  have touches : ((opened c).after ops).cache.touch = some span := by
    rw [touch_after, touch, if_pos rfl, ttl]
  have moved := deadline_step e.deadline
    (fun old there => deadline_eq_of_holds c ops there before) after
  generalize (opened c).after ops = s at touches moved ⊢
  rw [moved, touches]
  cases strays : s.strays key d with
  | false => simp
  | true =>
      have kept : s.dueByLaw key d e.deadline = e.deadline := by
        cases d with
        | act a => exact (Cache.of_strays strays e.deadline).2.2
        | _ => rfl
      simp [touched, kept, eq_comm]

/-- A cache of texts that last a second, and as long again after a read. -/
def renewing : Config :=
  { Config.ofCodec "users" (.described .plain .text) with
    defaultTtl := .ofSeconds 1
    touch := true }

/-- A hash with one field is 600 ms old. -/
def aged : List Operation :=
  [.sleep (.ofMillis 600), .act (.fieldSet "alice" "role" (.text "admin"))]

def asked : Operation := .act (.fieldTtl "alice" "role")

/-- Asking for the lifetime of a field of that hash renews it, after 600 ms of its second. -/
theorem renewed_by_fieldTtl :
    ∃ e e', ((opened renewing).after aged).cache.Holds "alice" e ∧
      (((opened renewing).after aged).step asked).cache.Holds "alice" e' ∧
      ((opened renewing).after aged).strays "alice" asked = true ∧
      e'.deadline = some 1600000000 ∧
      e'.deadline ≠ ((opened renewing).after aged).dueByLaw "alice" asked e.deadline := by
  have before : ((opened renewing).after aged).cache.Holds "alice"
      ⟨"users:alice", .hash [("role", .text "admin")], 1, some 1000000000⟩ :=
    ⟨List.mem_singleton_self _, rfl, by decide⟩
  have after : (((opened renewing).after aged).step asked).cache.Holds "alice"
      ⟨"users:alice", .hash [("role", .text "admin")], 1, some 1600000000⟩ :=
    ⟨List.mem_singleton_self _, rfl, by decide⟩
  have strays : ((opened renewing).after aged).strays "alice" asked = true := by decide
  have ttl : renewing.ttl = some (.ofSeconds 1) := by decide
  obtain ⟨-, lawful⟩ := dueByLaw_iff_not_strays rfl ttl aged asked before after
  refine ⟨_, _, before, after, strays, rfl, ?_⟩
  intro law
  exact absurd (lawful.mp law) (by decide)

/-- A hash that lasts a second has a second field written to it after 600 ms, and lasts 600 ms
longer. -/
theorem not_lawful_of_second_field :
    ¬ ((opened renewing).after aged).Lawful "alice" := by
  intro lawful
  have moved := lawful (.act (.fieldSet "alice" "team" (.text "red")))
    ⟨"users:alice", .hash [("role", .text "admin")], 1, some 1000000000⟩
    ⟨"users:alice", .hash [("role", .text "admin"), ("team", .text "red")], 2, some 1600000000⟩
    ⟨List.mem_singleton_self _, rfl, by decide⟩ ⟨List.mem_singleton_self _, rfl, by decide⟩
  exact absurd moved (by decide)

end State

end Local
end CacheFacade
