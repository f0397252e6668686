import CacheFacade.Json.Scan

/-!
Numbers of documents. An integer that fits 64 bits is kept exact; every other number becomes a
floating one, from at most nineteen or twenty digits and a power of ten, in two rounded steps.
-/

namespace CacheFacade
namespace Json

open Scan

inductive Number where
  | int (n : Int)
  | float (bits : UInt64)
deriving Repr, DecidableEq

def Number.scalar : Number → Scalar
  | int n => .int n
  | float bits => .float bits

def digit? (b : UInt8) : Option Nat := if 48 ≤ b && b ≤ 57 then some (b.toNat - 48) else none

def isDigit (b : UInt8) : Bool := 48 ≤ b && b ≤ 57

namespace Number

def format : FloatFormat := .binary64

def wordLimit : Nat := Nat.pow 2 64

/-- The greatest power of ten with a floating value. -/
def powerLimit : Nat := 308

def power (k : Nat) : Nat := format.round (Nat.pow 10 k) 1

/-- The exact fraction that magnitude bits stand for, zero for what is not finite. -/
def fractionOf (magnitude : Nat) : Nat × Nat :=
  match format.decode magnitude with
  | .finite _ m e => scaleByTwo m 1 e
  | _ => (0, 1)

def product (a b : Nat) : Nat :=
  let (n, d) := fractionOf a
  let (p, q) := fractionOf b
  format.round (n * p) (d * q)

def quotient (a b : Nat) : Nat :=
  let (n, d) := fractionOf a
  let (p, q) := fractionOf b
  format.round (n * q) (d * p)

/-- Divides by the greatest power until the exponent that is left has a power of its own. -/
def shrink : Nat → Nat → Nat → Nat
  | 0, f, _ => f
  | fuel + 1, f, k =>
    if k ≤ powerLimit then quotient f (power k)
    else if f = 0 then f
    else shrink fuel (quotient f (power powerLimit)) (k - powerLimit)

/-- The magnitude of `significand * 10 ^ exponent`, or `none` when it is too large. -/
def magnitude? (significand : Nat) (exponent : Int) : Option Nat :=
  let f := format.round significand 1
  if 0 ≤ exponent then
    if exponent ≤ powerLimit then
      let g := product f (power exponent.toNat)
      if g = format.infinity then none else some g
    else if f = 0 then some 0 else none
  else some (shrink 8 f exponent.natAbs)

def ofParts (negative : Bool) (significand : Nat) (exponent : Int) : Scan UInt64 :=
  match magnitude? significand exponent with
  | some g => pure (format.withSign negative g).toUInt64
  | none => fail .numberOutOfRange

/-- Takes digits into `acc` while they fit a limit, counting them; the digits that do not fit are
left. The flag says whether one was left. -/
def absorb (limit : Nat) : Nat → Nat → Bytes → (Nat × Nat × Bool) × Bytes
  | acc, count, [] => ((acc, count, false), [])
  | acc, count, b :: bs =>
    match digit? b with
    | none => ((acc, count, false), b :: bs)
    | some d =>
      if acc * 10 + d < limit then absorb limit (acc * 10 + d) (count + 1) bs
      else ((acc, count, true), b :: bs)

def absorbing (limit acc : Nat) : Scan (Nat × Nat × Bool) := fun bs =>
  let (r, rest) := absorb limit acc 0 bs
  .done r rest

/-- Skips digits and counts them. -/
def skipDigits : Scan Nat := fun bs =>
  .done (bs.takeWhile isDigit).length (bs.dropWhile isDigit)

def isExponentMark (b : Option UInt8) : Bool := b == some 101 || b == some 69

def exponentLimit : Nat := Nat.pow 2 31

/-- The exponent after its mark, which is still to be read. -/
def exponent (negative : Bool) (significand : Nat) (base : Int) : Scan UInt64 := do
  skip
  let sign ← peek
  let up := sign != some 45
  if sign == some 43 || sign == some 45 then skip
  match ← next with
  | none => fail .endInValue
  | some b =>
    match digit? b with
    | none => fail .invalidNumber
    | some d =>
      let (e, _, more) ← absorbing exponentLimit d
      if more then
        skip
        if significand ≠ 0 ∧ up then fail .numberOutOfRange
        else
          let _ ← skipDigits
          ofParts negative 0 0
      else ofParts negative significand (if up then base + e else base - e)

def ending (negative : Bool) (significand : Nat) (base : Int) : Scan UInt64 := do
  if isExponentMark (← peek) then exponent negative significand base
  else ofParts negative significand base

/-- The digits after the point, which is still to be read. -/
def fraction (negative : Bool) (significand : Nat) (base : Int) : Scan UInt64 := do
  skip
  let (s, count, more) ← absorbing wordLimit significand
  if more then
    let _ ← skipDigits
    ending negative s (base - count)
  else if count = 0 then
    match ← peek with
    | some _ => failNext .invalidNumber
    | none => failNext .endInValue
  else ending negative s (base - count)

def floating (negative : Bool) (significand : Nat) (base : Int) : Scan UInt64 := do
  if (← peek) == some 46 then fraction negative significand base
  else ending negative significand base

/-- A number whose integer digits are read; one without point and exponent is an integer. -/
def afterInteger (negative : Bool) (n : Nat) : Scan Number := do
  let b ← peek
  if b == some 46 || isExponentMark b then
    return .float (← floating negative n 0)
  else if !negative then return .int n
  else if n = 0 ∨ Nat.pow 2 63 < n then return .float (← ofParts true n 0)
  else return .int (-n)

/-- The digits of a number, after its sign. -/
def unsigned (negative : Bool) : Scan Number := do
  match ← next with
  | none => fail .endInValue
  | some b =>
    match digit? b with
    | none => fail .invalidNumber
    | some 0 =>
      match (← peek).bind digit? with
      | some _ => failNext .invalidNumber
      | none => afterInteger negative 0
    | some d =>
      let (n, _, more) ← absorbing wordLimit d
      if more then
        let dropped ← skipDigits
        return .float (← floating negative n dropped)
      else afterInteger negative n

def scan : Scan Number := do
  if (← peek) == some 45 then
    skip
    unsigned true
  else unsigned false

def moreDigits (n : Nat) : Scan Nat := fun bs =>
  .done ((bs.takeWhile isDigit).foldl (fun n c => n * 10 + (c.toNat - 48)) n)
    (bs.dropWhile isDigit)

/-- The digits of an integer of any size. -/
def wholeDigits : Scan Nat := do
  match ← next with
  | none => fail .invalidNumber
  | some b =>
    match digit? b with
    | none => fail .invalidNumber
    | some 0 =>
      match (← peek).bind digit? with
      | some _ => failNext .invalidNumber
      | none => pure 0
    | some d => moreDigits d

/-- An integer of 128 bits, which must fit its kind. -/
def wide (k : IntKind) : Scan Int := do
  match ← blanks with
  | none => failNext .endInValue
  | some 45 =>
    if k.signed then
      skip
      let n ← wholeDigits
      if k.holds (-n) then pure (-n : Int) else fail .numberOutOfRange
    else failNext .numberOutOfRange
  | some _ =>
    let n ← wholeDigits
    if k.holds n then pure (n : Int) else fail .numberOutOfRange

end Number
end Json
end CacheFacade
