import CacheFacade.Json.Fault

/-!
Scanning a document text from left to right. A scan ends with a value and the bytes that are left,
with a cause that has no place yet, or with a fault at a place, which is given by the number of
bytes left there.
-/

namespace CacheFacade
namespace Json

inductive Outcome (α : Type) where
  | done (a : α) (rest : Bytes)
  /-- The type refused what was read, and no place is known for that yet. -/
  | refused (c : Cause) (rest : Bytes)
  | failed (f : Fault) (remaining : Nat)

def Scan (α : Type) := Bytes → Outcome α

namespace Scan

protected def pure {α : Type} (a : α) : Scan α := fun bs => .done a bs

protected def bind {α β : Type} (s : Scan α) (f : α → Scan β) : Scan β := fun bs =>
  match s bs with
  | .done a rest => f a rest
  | .refused c rest => .refused c rest
  | .failed e n => .failed e n

instance : Monad Scan where
  pure := Scan.pure
  bind := Scan.bind

/-- A fault right after the bytes read so far. -/
def fail {α : Type} (g : Grammar) : Scan α := fun bs => .failed (.grammar g) bs.length

/-- A fault at the next byte, which counts as read. -/
def failNext {α : Type} (g : Grammar) : Scan α := fun bs => .failed (.grammar g) (bs.length - 1)

/-- A fault `back` bytes before the end of what is read. -/
def failBefore {α : Type} (back : Nat) (g : Grammar) : Scan α := fun bs =>
  .failed (.grammar g) (bs.length + back)

def refuse {α : Type} (c : Cause) : Scan α := fun bs => .refused c bs

def ofExcept {α : Type} : Except Cause α → Scan α
  | .ok a => pure a
  | .error c => refuse c

/-- Gives a refusal the place up to which the text was read. -/
def placed {α : Type} (s : Scan α) : Scan α := fun bs =>
  match s bs with
  | .refused c rest => .failed (.refused c) rest.length
  | o => o

def peek : Scan (Option UInt8) := fun bs => .done bs.head? bs

def skip : Scan Unit := fun bs => .done () bs.tail

def next : Scan (Option UInt8) := fun bs => .done bs.head? bs.tail

def isBlankByte (b : UInt8) : Bool := b == 0x20 || b == 0x0A || b == 0x09 || b == 0x0D

def dropBlanks (bs : Bytes) : Bytes := bs.dropWhile isBlankByte

/-- Skips white space and looks at the byte after it. -/
def blanks : Scan (Option UInt8) := fun bs =>
  let rest := dropBlanks bs
  .done rest.head? rest

def expectWord : Bytes → Scan Unit
  | [] => pure ()
  | b :: bs => do
    match ← next with
    | none => fail .endInValue
    | some c => if c == b then expectWord bs else fail .expectedWord

/-- A scan of a whole text: only white space may follow. -/
def run {α : Type} (s : Scan α) (bs : Bytes) : Except Error α :=
  let at' (remaining : Nat) : Option Place := some (.after (bs.take (bs.length - remaining)))
  match s bs with
  | .done a rest =>
    match dropBlanks rest with
    | [] => .ok a
    | left => .error ⟨.grammar .trailingCharacters, at' (left.length - 1)⟩
  | .refused c _ => .error ⟨.refused c, none⟩
  | .failed f n => .error ⟨f, at' n⟩

end Scan
end Json
end CacheFacade
