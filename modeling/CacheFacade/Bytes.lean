/-!
Byte strings and the UTF-8 form of a text. A byte string that holds no text is described by its
first malformed sequence: where it starts, and how many bytes rule it out.
-/

namespace CacheFacade

abbrev Bytes := List UInt8

namespace Utf8

def encode (s : String) : Bytes := s.toByteArray.data.toList

/-- The first malformed sequence of a byte string. -/
structure Fault where
  /-- The number of bytes before the sequence. -/
  index : Nat
  /-- The bytes that no character starts with, or `none` when the input ends inside a character. -/
  length : Option Nat
deriving Repr, DecidableEq

def Fault.message (f : Fault) : String :=
  match f.length with
  | some n => s!"invalid utf-8 sequence of {n} bytes from index {f.index}"
  | none => s!"incomplete utf-8 byte sequence from index {f.index}"

/-- What the first bytes of an input are. -/
inductive Lead where
  /-- A character of this many bytes beyond its first. -/
  | whole (tail : Nat)
  | malformed (length : Nat)
  | cut
deriving Repr, DecidableEq

def isTail (b : UInt8) : Bool := 0x80 ≤ b && b ≤ 0xBF

/-- The bytes that may follow a first byte, by the length of the character: the tail count and the
range of the second byte. -/
def second (b : UInt8) : Option (Nat × UInt8 × UInt8) :=
  if b < 0x80 then some (0, 0x80, 0xBF)
  else if b < 0xC2 then none
  else if b < 0xE0 then some (1, 0x80, 0xBF)
  else if b == 0xE0 then some (2, 0xA0, 0xBF)
  else if b == 0xED then some (2, 0x80, 0x9F)
  else if b < 0xF0 then some (2, 0x80, 0xBF)
  else if b == 0xF0 then some (3, 0x90, 0xBF)
  else if b < 0xF4 then some (3, 0x80, 0xBF)
  else if b == 0xF4 then some (3, 0x80, 0x8F)
  else none

/-- Reads tails after the second byte; `seen` bytes belong to the character so far. -/
def tails : Nat → Nat → Bytes → Option Lead
  | 0, _, _ => none
  | _ + 1, _, [] => some .cut
  | n + 1, seen, b :: rest =>
    if isTail b then tails n (seen + 1) rest else some (.malformed seen)

def lead (b : UInt8) (rest : Bytes) : Lead :=
  match second b, rest with
  | none, _ => .malformed 1
  | some (0, _, _), _ => .whole 0
  | some (_ + 1, _, _), [] => .cut
  | some (n + 1, lo, hi), c :: after =>
    if lo ≤ c && c ≤ hi then (tails n 2 after).getD (.whole (n + 1)) else .malformed 1

def firstFault (index : Nat) : Bytes → Fault
  | [] => ⟨index, none⟩
  | b :: rest =>
    match lead b rest with
    | .whole n => firstFault (index + n + 1) (rest.drop n)
    | .malformed n => ⟨index, some n⟩
    | .cut => ⟨index, none⟩
termination_by bs => bs.length
decreasing_by simp only [List.length_drop, List.length_cons]; omega

def decode (bs : Bytes) : Except Fault String :=
  match String.fromUTF8? bs.toByteArray with
  | some s => .ok s
  | none => .error (firstFault 0 bs)

end Utf8
end CacheFacade
