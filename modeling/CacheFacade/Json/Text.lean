import CacheFacade.Json.Scan

/-!
Texts of documents, after their opening quote. A strict text holds UTF-8 with no control characters,
and its escapes name characters; a loose one is a byte string, in which an escape may name half of a
surrogate pair.
-/

namespace CacheFacade
namespace Json

open Scan

def quote : UInt8 := 34
def backslash : UInt8 := 92

def hexDigit? (b : UInt8) : Option Nat :=
  if 48 ≤ b && b ≤ 57 then some (b.toNat - 48)
  else if 97 ≤ b && b ≤ 102 then some (b.toNat - 87)
  else if 65 ≤ b && b ≤ 70 then some (b.toNat - 55)
  else none

namespace Text

/-- The byte that a one-letter escape stands for. -/
def letter? (b : UInt8) : Option UInt8 :=
  if b == 34 then some 34
  else if b == 92 then some 92
  else if b == 47 then some 47
  else if b == 98 then some 8
  else if b == 102 then some 12
  else if b == 110 then some 10
  else if b == 114 then some 13
  else if b == 116 then some 9
  else none

def isLead (n : Nat) : Bool := 0xD800 ≤ n && n ≤ 0xDBFF
def isTrail (n : Nat) : Bool := 0xDC00 ≤ n && n ≤ 0xDFFF

/-- The UTF-8 pattern of a code point, surrogates included. -/
def codePoint (n : Nat) : Bytes :=
  let tail (k : Nat) : UInt8 := (0x80 + n / Nat.pow 2 k % 64).toUInt8
  if n < 0x80 then [n.toUInt8]
  else if n < 0x800 then [(0xC0 + n / 64).toUInt8, tail 0]
  else if n < 0x10000 then [(0xE0 + n / 4096).toUInt8, tail 6, tail 0]
  else [(0xF0 + n / 262144).toUInt8, tail 12, tail 6, tail 0]

/-- Four digits of a code unit. -/
def hexUnit : Scan Nat
  | a :: b :: c :: d :: rest =>
    match hexDigit? a, hexDigit? b, hexDigit? c, hexDigit? d with
    | some a, some b, some c, some d => .done (((a * 16 + b) * 16 + c) * 16 + d) rest
    | _, _, _, _ => .failed (.grammar .invalidEscape) rest.length
  | _ => .failed (.grammar .endInText) 0

def orEnd (s : Scan (Option UInt8)) : Scan UInt8 := do
  match ← s with
  | some b => pure b
  | none => fail .endInText

def simpleEscape (b : UInt8) : Scan Bytes :=
  match letter? b with
  | some c => pure [c]
  | none => fail .invalidEscape

/-- What follows a leading half: a trailing half makes a pair with it. A loose text keeps a lone
half and goes on with what stands there instead; `fuel` bounds the halves in a row. -/
def afterLead (strict : Bool) : Nat → Nat → Scan Bytes
  | 0, lead => pure (codePoint lead)
  | fuel + 1, lead => do
    let b ← orEnd peek
    if b != backslash then
      if strict then
        skip
        fail .cutEscape
      else pure (codePoint lead)
    else
      skip
      let u ← orEnd peek
      if u != 117 then
        if strict then
          skip
          fail .cutEscape
        else
          skip
          return codePoint lead ++ (← simpleEscape u)
      else
        skip
        let n ← hexUnit
        if isTrail n then pure (codePoint (0x10000 + (lead - 0xD800) * 1024 + (n - 0xDC00)))
        else if strict then fail .loneSurrogate
        else if isLead n then return codePoint lead ++ (← afterLead false fuel n)
        else pure (codePoint lead ++ codePoint n)

/-- What an escape stands for, after its backslash. -/
def escape (strict : Bool) : Scan Bytes := fun bs =>
  (do
    let b ← orEnd next
    if b != 117 then simpleEscape b
    else
      let n ← hexUnit
      if strict && isTrail n then fail .loneSurrogate
      else if isLead n then afterLead strict bs.length n
      else pure (codePoint n) : Scan Bytes) bs

/-- The bytes up to the closing quote, which is left; `acc` holds those read so far in reverse. -/
def body (strict : Bool) : Nat → Bytes → Scan Bytes
  | 0, _ => fail .endInText
  | fuel + 1, acc => do
    match ← peek with
    | none => fail .endInText
    | some b =>
      if b == quote then pure acc.reverse
      else
        skip
        if b == backslash then
          let piece ← escape strict
          body strict fuel (piece.reverse ++ acc)
        else if strict && b < 32 then fail .controlCharacter
        else body strict fuel (b :: acc)

/-- A byte string after its opening quote. -/
def looseBytes : Scan Bytes := fun bs =>
  (do
    let raw ← body false (bs.length + 1) []
    skip
    pure raw : Scan Bytes) bs

/-- A text after its opening quote. Bytes that are no text are refused at a place before the closing
quote: as far before it as the read bytes go on from their first malformed sequence. -/
def text : Scan String := fun bs =>
  (do
    let raw ← body true (bs.length + 1) []
    skip
    match Utf8.decode raw with
    | .ok s => pure s
    | .error f => failBefore (raw.length - f.index) .invalidCodePoint : Scan String) bs

/-- Passes over a text without reading it. -/
def skipBody : Nat → Scan Unit
  | 0 => fail .endInText
  | fuel + 1 => do
    match ← peek with
    | none => fail .endInText
    | some b =>
      if b == quote then skip
      else if b == backslash then
        skip
        let c ← orEnd next
        if c == 117 then
          let _ ← hexUnit
          skipBody fuel
        else
          let _ ← simpleEscape c
          skipBody fuel
      else if b < 32 then fail .controlCharacter
      else
        skip
        skipBody fuel

def skipText : Scan Unit := fun bs => skipBody (bs.length + 1) bs

end Text
end Json
end CacheFacade
