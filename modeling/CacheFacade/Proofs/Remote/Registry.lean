import CacheFacade.Remote.Command
import CacheFacade.Remote.Round
import CacheFacade.Remote.Lease
import Mathlib.Logic.Function.Basic

/-!
The replica keys of locks as a server keeps them. A key is held under a token until a deadline; from
that instant on it is vacant. Only the three commands of locks are served here, each in one
indivisible step, and a command changes a key that is held only in the name of its own token.
-/

namespace CacheFacade
namespace Remote

/-- The token that a replica key holds, and the instant from which the key is vacant. -/
structure Tenure where
  token : String
  deadline : Nat
deriving Repr, DecidableEq

structure Registry where
  now : Nat
  tenures : String → Option Tenure

namespace Registry

def vacant : Registry := ⟨0, fun _ => none⟩

/-- The tenure of a key that is not over. -/
def tenure? (r : Registry) (key : String) : Option Tenure :=
  (r.tenures key).filter fun t => r.now < t.deadline

def carries (r : Registry) (key token : String) : Bool :=
  (r.tenure? key).any fun t => t.token == token

def assign (r : Registry) (key : String) (t : Option Tenure) : Registry :=
  { r with tenures := Function.update r.tenures key t }

def grant (r : Registry) (token : String) (ttl : Nat) : Tenure :=
  ⟨token, r.now + ttl * Span.perMilli⟩

def serve (r : Registry) : Command → Answer × Registry
  | .acquire key token ttl =>
    if (r.tenure? key).isSome then (.nothing, r)
    else (.okay, r.assign key (some (r.grant token ttl)))
  | .extend key token ttl =>
    if r.carries key token then (.integer 1, r.assign key (some (r.grant token ttl)))
    else (.integer 0, r)
  | .release key token =>
    if r.carries key token then (.integer 1, r.assign key none) else (.integer 0, r)
  | _ => (.nothing, r)

def pass (r : Registry) (d : Nat) : Registry := { r with now := r.now + d }

@[simp] theorem assign_tenures_self (r : Registry) (key : String) (t : Option Tenure) :
    (r.assign key t).tenures key = t := by
  simp [assign]

theorem assign_tenures_of_ne (r : Registry) {key other : String} (t : Option Tenure)
    (h : other ≠ key) : (r.assign key t).tenures other = r.tenures other := by
  simp [assign, h]

theorem tenure?_eq_some (r : Registry) (key : String) (t : Tenure) :
    r.tenure? key = some t ↔ r.tenures key = some t ∧ r.now < t.deadline := by
  simp [tenure?, Option.filter_eq_some_iff]

theorem carries_iff (r : Registry) (key token : String) :
    r.carries key token = true ↔
      ∃ d, r.tenures key = some ⟨token, d⟩ ∧ r.now < d := by
  constructor
  · intro h
    obtain ⟨t, ht, hToken⟩ := (Option.any_eq_true _ _).mp h
    obtain ⟨hHeld, hLive⟩ := (tenure?_eq_some r key t).mp ht
    have hEq : t.token = token := by simpa using hToken
    exact ⟨t.deadline, by rw [hHeld, ← hEq], hLive⟩
  · rintro ⟨d, hHeld, hLive⟩
    apply (Option.any_eq_true _ _).mpr
    exact ⟨⟨token, d⟩, (tenure?_eq_some r key _).mpr ⟨hHeld, hLive⟩, by simp⟩

theorem carries_unique {r : Registry} {key a b : String}
    (ha : r.carries key a = true) (hb : r.carries key b = true) : a = b := by
  obtain ⟨d, hd, _⟩ := (carries_iff r key a).mp ha
  obtain ⟨e, he, _⟩ := (carries_iff r key b).mp hb
  rw [hd] at he
  cases he
  rfl

/-- All that a command can do to a key: it takes the key when it is vacant, and gives it a new
deadline or frees it when it holds the token of the command. -/
theorem tenures_serve (r : Registry) (c : Command) (key : String) :
    (r.serve c).2.tenures key = r.tenures key ∨
      (∃ token ttl, c = .acquire key token ttl ∧ r.tenure? key = none ∧
        (r.serve c).2.tenures key = some (r.grant token ttl)) ∨
      (∃ token ttl, c = .extend key token ttl ∧ r.carries key token = true ∧
        (r.serve c).2.tenures key = some (r.grant token ttl)) ∨
      ∃ token, c = .release key token ∧ r.carries key token = true ∧
        (r.serve c).2.tenures key = none := by
  cases c with
  | acquire other token ttl =>
      simp only [serve]
      split
      · exact .inl rfl
      · rename_i hVacant
        by_cases h : key = other
        · subst h
          exact .inr (.inl ⟨token, ttl, rfl, by simpa using hVacant, by simp⟩)
        · exact .inl (assign_tenures_of_ne r _ h)
  | extend other token ttl =>
      simp only [serve]
      split
      · rename_i hHeld
        by_cases h : key = other
        · subst h
          exact .inr (.inr (.inl ⟨token, ttl, rfl, hHeld, by simp⟩))
        · exact .inl (assign_tenures_of_ne r _ h)
      · exact .inl rfl
  | release other token =>
      simp only [serve]
      split
      · rename_i hHeld
        by_cases h : key = other
        · subst h
          exact .inr (.inr (.inr ⟨token, rfl, hHeld, by simp⟩))
        · exact .inl (assign_tenures_of_ne r _ h)
      · exact .inl rfl
  | _ => exact .inl rfl

@[simp] theorem serve_now (r : Registry) (c : Command) : (r.serve c).2.now = r.now := by
  cases c <;> simp only [serve] <;> split <;> rfl

theorem tenures_serve_of_held {r : Registry} {c : Command} {key : String} {t : Tenure}
    (held : r.tenures key = some t) (live : r.now < t.deadline)
    (hExtend : ∀ ttl, c ≠ .extend key t.token ttl) (hRelease : c ≠ .release key t.token) :
    (r.serve c).2.tenures key = some t := by
  have own : ∀ token, r.carries key token = true → token = t.token := by
    intro token h
    exact carries_unique h ((carries_iff r key t.token).mpr ⟨t.deadline, held, live⟩)
  obtain h | ⟨token, ttl, -, hVacant, -⟩ | ⟨token, ttl, hc, hHeld, -⟩ | ⟨token, hc, hHeld, -⟩ :=
    tenures_serve r c key
  · rw [h, held]
  · rw [(tenure?_eq_some r key t).mpr ⟨held, live⟩] at hVacant
    cases hVacant
  · exact absurd (own token hHeld ▸ hc) (hExtend ttl)
  · exact absurd (own token hHeld ▸ hc) hRelease

theorem tenures_of_taken {r : Registry} {key token : String} {ttl : Nat}
    (taken : Mark.ofOutcome (.ok (r.serve (.acquire key token ttl)).1) = .taken) :
    (r.serve (.acquire key token ttl)).2.tenures key = some (r.grant token ttl) := by
  simp only [serve] at taken ⊢
  split at taken
  · cases taken
  · rename_i hVacant
    simp [hVacant]

theorem serve_acquire_vacant {r : Registry} {key token : String} {ttl : Nat}
    (vacant : r.tenure? key = none) :
    r.serve (.acquire key token ttl) = (.okay, r.assign key (some (r.grant token ttl))) := by
  simp [serve, vacant]

theorem serve_extend_held {r : Registry} {key token : String} {ttl : Nat}
    (held : r.carries key token = true) :
    r.serve (.extend key token ttl) = (.integer 1, r.assign key (some (r.grant token ttl))) := by
  simp [serve, held]

end Registry

/-- What becomes of a command on its way. -/
inductive Fate where
  | answered
  /-- The server carried it out, but its answer was lost. -/
  | lost (t : Trouble)
  /-- It did not reach the server. -/
  | missed (t : Trouble)
deriving Repr, DecidableEq

namespace Registry

def meet (r : Registry) (c : Command) : Fate → Outcome × Registry
  | .answered => (.ok (r.serve c).1, (r.serve c).2)
  | .lost t => (.error t, (r.serve c).2)
  | .missed t => (.error t, r)

theorem meet_registry (r : Registry) (c : Command) (f : Fate) :
    (r.meet c f).2 = (r.serve c).2 ∨ (r.meet c f).2 = r := by
  cases f with
  | answered | lost _ => exact .inl rfl
  | missed _ => exact .inr rfl

@[simp] theorem meet_now (r : Registry) (c : Command) (f : Fate) : (r.meet c f).2.now = r.now := by
  obtain h | h := meet_registry r c f <;> simp [h]

@[simp] theorem grant_meet (r : Registry) (c : Command) (f : Fate) (token : String) (ttl : Nat) :
    (r.meet c f).2.grant token ttl = r.grant token ttl := by
  simp [grant]

/-- A key that its token does not free keeps its deadline, or has a new one from now on. -/
theorem tenures_meet_of_kept {r : Registry} {c : Command} {key token : String} {d : Nat} (f : Fate)
    (held : r.tenures key = some ⟨token, d⟩) (live : r.now < d) (kept : c ≠ .release key token) :
    (r.meet c f).2.tenures key = some ⟨token, d⟩ ∨
      ∃ ttl, c = .extend key token ttl ∧ (r.meet c f).2.tenures key = some (r.grant token ttl) := by
  obtain h | h := meet_registry r c f <;> rw [h]
  · by_cases renewal : ∃ ttl, c = .extend key token ttl
    · obtain ⟨ttl, rfl⟩ := renewal
      have carried := (carries_iff r key token).mpr ⟨d, held, live⟩
      exact .inr ⟨ttl, rfl, by rw [serve_extend_held carried, assign_tenures_self]⟩
    · apply Or.inl
      apply tenures_serve_of_held held live
      · intro ttl same
        exact renewal ⟨ttl, same⟩
      · exact kept
  · exact .inl held

theorem tenures_meet_of_taken {r : Registry} {key token : String} {ttl : Nat} {f : Fate}
    (taken : Mark.ofOutcome (r.meet (.acquire key token ttl) f).1 = .taken) :
    (r.meet (.acquire key token ttl) f).2.tenures key = some (r.grant token ttl) := by
  cases f with
  | answered => exact tenures_of_taken taken
  | lost _ | missed _ => cases taken

end Registry
end Remote
end CacheFacade
