/-!
Integers of a fixed width, and their decimal text. Reading takes an optional sign and digits; each
step is checked against the range, so a text is refused at its first fault.
-/

namespace CacheFacade

inductive Width where
  | w8 | w16 | w32 | w64 | w128
deriving Repr, DecidableEq

def Width.bits : Width → Nat
  | w8 => 8
  | w16 => 16
  | w32 => 32
  | w64 => 64
  | w128 => 128

structure IntKind where
  signed : Bool
  width : Width
deriving Repr, DecidableEq

namespace IntKind

def i8 : IntKind := ⟨true, .w8⟩
def i16 : IntKind := ⟨true, .w16⟩
def i32 : IntKind := ⟨true, .w32⟩
def i64 : IntKind := ⟨true, .w64⟩
def i128 : IntKind := ⟨true, .w128⟩
def u8 : IntKind := ⟨false, .w8⟩
def u16 : IntKind := ⟨false, .w16⟩
def u32 : IntKind := ⟨false, .w32⟩
def u64 : IntKind := ⟨false, .w64⟩
def u128 : IntKind := ⟨false, .w128⟩

def least (k : IntKind) : Int := if k.signed then -(Nat.pow 2 (k.width.bits - 1) : Nat) else 0

def greatest (k : IntKind) : Int :=
  (if k.signed then (Nat.pow 2 (k.width.bits - 1) : Nat) else (Nat.pow 2 k.width.bits : Nat)) - 1

def holds (k : IntKind) (n : Int) : Bool := k.least ≤ n && n ≤ k.greatest

def name (k : IntKind) : String := (if k.signed then "i" else "u") ++ toString k.width.bits

/-- The value that the low bits of `n` stand for. -/
def wrap (k : IntKind) (n : Int) : Int :=
  if k.signed then n.bmod (Nat.pow 2 k.width.bits) else n % (Nat.pow 2 k.width.bits : Nat)

end IntKind

namespace Integer

inductive Fault where
  | empty
  | invalidDigit
  | tooLarge
  | tooSmall
deriving Repr, DecidableEq

def Fault.message : Fault → String
  | empty => "cannot parse integer from empty string"
  | invalidDigit => "invalid digit found in string"
  | tooLarge => "number too large to fit in target type"
  | tooSmall => "number too small to fit in target type"

def digit? (c : Char) : Option Nat := if c.isDigit then some (c.toNat - 48) else none

/-- Appends digits to `acc`, away from zero. -/
def accumulate (k : IntKind) (negative : Bool) : Int → List Char → Except Fault Int
  | acc, [] => .ok acc
  | acc, c :: cs =>
    match digit? c with
    | none => .error .invalidDigit
    | some d =>
      let next := if negative then acc * 10 - d else acc * 10 + d
      if k.holds next then accumulate k negative next cs
      else .error (if negative then .tooSmall else .tooLarge)

def readChars (k : IntKind) : List Char → Except Fault Int
  | [] => .error .empty
  | ['+'] => .error .invalidDigit
  | ['-'] => .error .invalidDigit
  | '+' :: cs => accumulate k false 0 cs
  | '-' :: cs => if k.signed then accumulate k true 0 cs else .error .invalidDigit
  | cs => accumulate k false 0 cs

def read (k : IntKind) (s : String) : Except Fault Int := readChars k s.toList

def text (n : Int) : String := toString n

end Integer
end CacheFacade
