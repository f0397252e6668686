import CacheFacade.Json.Skip

/-!
Lists and objects between their brackets: when another item follows, how an entry starts, and how a
bracket closes. Nesting is counted down, and the last level is refused.
-/

namespace CacheFacade
namespace Json

open Scan

/-- The levels of brackets that a text may open. -/
def deepest : Nat := 127

/-- What stands at a place: a scalar, which is read, or an open bracket, which is left. -/
inductive Offer where
  | scalar (s : Scalar)
  | list
  | object

def Offer.found : Offer → Found
  | scalar s => s.found
  | list => .list
  | object => .map

/-- What stands at a place after white space. -/
def offer : Scan Offer := do
  match ← blanks with
  | none => failNext .endInValue
  | some 110 =>
    skip
    expectWord [117, 108, 108]
    return .scalar .unit
  | some 116 =>
    skip
    expectWord [114, 117, 101]
    return .scalar (.bool true)
  | some 102 =>
    skip
    expectWord [97, 108, 115, 101]
    return .scalar (.bool false)
  | some 34 =>
    skip
    return .scalar (.text (← Text.text))
  | some 91 => return .list
  | some 123 => return .object
  | some b =>
    if b == 45 || isDigit b then return .scalar (← Number.scan).scalar
    else failNext .expectedValue

/-- Reads what stands there and refuses it. -/
def refuseOffer {α : Type} (expected : String) : Scan α := placed do
  refuse (.invalidType (← offer).found expected)

/-- Whether a list goes on; its first item needs no comma before it. -/
def listGoesOn (first : Bool) : Scan Bool := do
  match ← blanks with
  | none => failNext .endInList
  | some 93 => pure false
  | some b =>
    if first then pure true
    else if b == 44 then
      skip
      match ← blanks with
      | some 93 => failNext .trailingComma
      | some _ => pure true
      | none => failNext .endInValue
    else failNext .expectedListComma

/-- Whether an object goes on with the quote of another name. -/
def objectGoesOn (first : Bool) : Scan Bool := do
  match ← blanks with
  | none => failNext .endInObject
  | some 125 => pure false
  | some b =>
    if first then if b == quote then pure true else failNext .keyNotText
    else if b == 44 then
      skip
      match ← blanks with
      | some 34 => pure true
      | some 125 => failNext .trailingComma
      | some _ => failNext .keyNotText
      | none => failNext .endInValue
    else failNext .expectedObjectComma

def colon : Scan Unit := do
  match ← blanks with
  | some 58 => skip
  | some _ => failNext .expectedColon
  | none => failNext .endInObject

/-- The name of an entry, from its quote on. -/
def entryName : Scan String := do
  skip
  Text.text

/-- Closes a list: the bytes left, and what is wrong at the next one of them. -/
def closeList (bs : Bytes) : Bytes × Option Grammar :=
  match dropBlanks bs with
  | [] => ([], some .endInList)
  | b :: rest =>
    if b == 93 then (rest, none)
    else if b == 44 then
      let left := dropBlanks rest
      (left, some (if left.head? == some 93 then .trailingComma else .trailingCharacters))
    else (b :: rest, some .trailingCharacters)

def closeObject (bs : Bytes) : Bytes × Option Grammar :=
  match dropBlanks bs with
  | [] => ([], some .endInObject)
  | b :: rest =>
    if b == 125 then (rest, none)
    else if b == 44 then (b :: rest, some .trailingComma)
    else (b :: rest, some .trailingCharacters)

/-- A scan inside brackets. The closing bracket is looked for also when the type refuses what it
read, and the place of the refusal is where that search ends. -/
def enclosed {α : Type} (close : Bytes → Bytes × Option Grammar) (s : Scan α) : Scan α := fun bs =>
  match s bs with
  | .done a rest =>
    match close rest with
    | (left, none) => .done a left
    | (left, some g) => .failed (.grammar g) (left.length - 1)
  | .refused c rest => .failed (.refused c) (close rest).1.length
  | .failed f n => .failed f n

/-- Opens a bracket, unless no level is left. -/
def deeper {α : Type} (s : Nat → Scan α) : Nat → Scan α
  | 0 => failNext .tooDeep
  | depth + 1 => do
    skip
    s depth

def itemsFrom {α : Type} (item : Scan α) : Nat → Bool → Scan (List α)
  | 0, _ => pure []
  | fuel + 1, first => do
    if ← listGoesOn first then
      let a ← item
      return a :: (← itemsFrom item fuel false)
    else pure []

/-- All items of an open list. -/
def items {α : Type} (item : Scan α) : Scan (List α) := fun bs =>
  itemsFrom item (bs.length + 1) true bs

def entriesFrom {α : Type} (entry : Scan α) : Nat → Bool → Scan (List α)
  | 0, _ => pure []
  | fuel + 1, first => do
    if ← objectGoesOn first then
      let a ← entry
      return a :: (← entriesFrom entry fuel false)
    else pure []

/-- All entries of an open object. -/
def entries {α : Type} (entry : Scan α) : Scan (List α) := fun bs =>
  entriesFrom entry (bs.length + 1) true bs

/-- A document, with its objects as they were written. -/
def document : Nat → Scan Document
  | 0 => do
    match ← offer with
    | .scalar s => pure (s.document?.getD .null)
    | _ => failNext .tooDeep
  | depth + 1 => do
    match ← offer with
    | .scalar s => pure (s.document?.getD .null)
    | .list =>
      skip
      return .array (← enclosed closeList (items (document depth)))
    | .object =>
      skip
      return .object (← enclosed closeObject (entries do
        let name ← entryName
        colon
        return (name, ← document depth)))

end Json
end CacheFacade
