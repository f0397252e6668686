import CacheFacade.Json.Number
import CacheFacade.Json.Text

/-!
Passing over a value that no one reads. The text is checked against the grammar only, and nesting is
not limited: the open brackets are kept in a list.
-/

namespace CacheFacade
namespace Json
namespace Skip

open Scan

/-- An open bracket. -/
inductive Frame where
  | list
  | object
deriving Repr, DecidableEq

/-- A digit, for a place where nothing else may stand. -/
def oneDigit (onOther : Scan Unit) : Scan Unit := do
  match (← peek).bind digit? with
  | some _ =>
    let _ ← Number.skipDigits
  | none => onOther

def exponent : Scan Unit := do
  if Number.isExponentMark (← peek) then
    skip
    let sign ← peek
    if sign == some 43 || sign == some 45 then skip
    oneDigit do
      skip
      fail .invalidNumber

def number : Scan Unit := do
  match ← next with
  | some 48 =>
    match (← peek).bind digit? with
    | some _ => failNext .invalidNumber
    | none => pure ()
  | some b =>
    if isDigit b then
      let _ ← Number.skipDigits
    else fail .invalidNumber
  | none => fail .invalidNumber
  if (← peek) == some 46 then
    skip
    oneDigit (failNext .invalidNumber)
  exponent

/-- The name of an object entry and its colon. -/
def key : Scan Unit := do
  match ← blanks with
  | some 34 =>
    skip
    Text.skipText
    match ← blanks with
    | some 58 => skip
    | some _ => failNext .expectedColon
    | none => failNext .endInObject
  | some _ => failNext .keyNotText
  | none => failNext .endInObject

/-- The start of a value: a whole scalar, or an open bracket that holds something. -/
def opening : Scan (Option Frame) := do
  match ← blanks with
  | none => failNext .endInValue
  | some 110 =>
    skip
    expectWord [117, 108, 108]
    return none
  | some 116 =>
    skip
    expectWord [114, 117, 101]
    return none
  | some 102 =>
    skip
    expectWord [97, 108, 115, 101]
    return none
  | some 45 =>
    skip
    number
    return none
  | some 34 =>
    skip
    Text.skipText
    return none
  | some 91 =>
    skip
    return some .list
  | some 123 =>
    skip
    return some .object
  | some b =>
    if isDigit b then
      number
      return none
    else failNext .expectedValue

/-- After a value: closes brackets until one of them goes on. -/
def closing : List Frame → (comma : Bool) → Nat → Scan (List Frame)
  | [], _, _ => pure []
  | _, _, 0 => fail .endInValue
  | frame :: frames, comma, fuel + 1 => do
    match ← blanks, frame with
    | some 44, _ =>
      if comma then
        skip
        pure (frame :: frames)
      else pure (frame :: frames)
    | some 93, .list =>
      skip
      closing frames true fuel
    | some 125, .object =>
      skip
      closing frames true fuel
    | some _, .list => if comma then failNext .expectedListComma else pure (frame :: frames)
    | some _, .object => if comma then failNext .expectedObjectComma else pure (frame :: frames)
    | none, .list => failNext .endInList
    | none, .object => failNext .endInObject

/-- Values and closings in turn, until no bracket is open. -/
def loop : Nat → List Frame → Scan Unit
  | 0, _ => fail .endInValue
  | fuel + 1, frames => do
    let frames ← match ← opening with
      | none => closing frames true (fuel + 1)
      | some frame => closing (frame :: frames) false (fuel + 1)
    match frames with
    | [] => pure ()
    | .list :: _ => loop fuel frames
    | .object :: _ =>
      key
      loop fuel frames

def value : Scan Unit := fun bs => loop (bs.length + 1) [] bs

end Skip
end Json
end CacheFacade
