import CacheFacade.Span

/-!
The instants of a clock, in nanoseconds since its zero. A clock has a last instant, so the one that
lies a span after another need not be there.
-/

namespace CacheFacade
namespace Clock

/-- The last instant of a clock whose seconds are a signed word of 64 bits. -/
def last : Nat := Nat.pow 2 63 * Span.perSecond - 1

/-- The instant that is a span after another, if the clock comes to it. -/
def after? (now : Nat) (d : Span) : Option Nat :=
  if now + d.nanos ≤ last then some (now + d.nanos) else none

variable {now due : Nat} {d : Span}

theorem after?_eq_some_iff : after? now d = some due ↔ now + d.nanos ≤ last ∧ now + d.nanos = due := by
  rw [after?]
  split
  next early => simp [early]
  next late => simp [late]

theorem after?_eq_none_iff : after? now d = none ↔ last < now + d.nanos := by
  rw [after?]
  split
  next early => simp [early]
  next late => simp [Nat.not_le.mp late]

/-- The text with which a sum beyond the last instant ends a thread. -/
def overflow : String := "overflow when adding duration to instant"

end Clock
end CacheFacade
