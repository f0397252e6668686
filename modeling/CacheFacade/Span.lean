/-!
Lengths of time, counted in nanoseconds. Their text names the largest unit that has a whole part
and shows the rest as a fraction without trailing zeros.
-/

namespace CacheFacade

structure Span where
  nanos : Nat
deriving Repr, DecidableEq

namespace Span

def perSecond : Nat := 1000000000
def perMilli : Nat := 1000000
def perMicro : Nat := 1000

def zero : Span := ⟨0⟩
def ofSeconds (n : Nat) : Span := ⟨n * perSecond⟩
def ofMillis (n : Nat) : Span := ⟨n * perMilli⟩

def seconds (s : Span) : Nat := s.nanos / perSecond
def subsecond (s : Span) : Nat := s.nanos % perSecond
def millis (s : Span) : Nat := s.nanos / perMilli
def half (s : Span) : Span := ⟨s.nanos / 2⟩

def isZero (s : Span) : Bool := s.nanos == 0

/-- The longest span: all seconds of an unsigned word, short of one second more by a nanosecond. -/
def greatest : Span := ⟨Nat.pow 2 64 * perSecond - 1⟩

/-- The fraction `part / unit` as digits after a point, without trailing zeros. -/
def fraction (part unit : Nat) : String :=
  if part = 0 then ""
  else
    let ds := Nat.toDigits 10 part
    let width := (Nat.toDigits 10 unit).length - 1
    let padded := List.replicate (width - ds.length) '0' ++ ds
    "." ++ String.ofList (padded.reverse.dropWhile (· == '0')).reverse

def inUnit (s : Span) (unit : Nat) (suffix : String) : String :=
  toString (s.nanos / unit) ++ fraction (s.nanos % unit) unit ++ suffix

def text (s : Span) : String :=
  if perSecond ≤ s.nanos then s.inUnit perSecond "s"
  else if perMilli ≤ s.nanos then s.inUnit perMilli "ms"
  else if perMicro ≤ s.nanos then s.inUnit perMicro "µs"
  else toString s.nanos ++ "ns"

end Span
end CacheFacade
