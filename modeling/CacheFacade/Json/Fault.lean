import CacheFacade.Schema.Acceptance

/-!
Why a document text is refused, and where. The place is a line and a column in bytes; a refusal that
comes from the type alone, after the text was read, has no place.
-/

namespace CacheFacade
namespace Json

inductive Grammar where
  | endInList
  | endInObject
  | endInText
  | endInValue
  | expectedColon
  | expectedListComma
  | expectedObjectComma
  | expectedWord
  | expectedValue
  | expectedQuote
  | invalidEscape
  | invalidNumber
  | numberOutOfRange
  | invalidCodePoint
  | controlCharacter
  | keyNotText
  | keyNotNumeric
  | loneSurrogate
  | trailingComma
  | trailingCharacters
  | cutEscape
  | tooDeep
deriving Repr, DecidableEq

def Grammar.message : Grammar → String
  | endInList => "EOF while parsing a list"
  | endInObject => "EOF while parsing an object"
  | endInText => "EOF while parsing a string"
  | endInValue => "EOF while parsing a value"
  | expectedColon => "expected `:`"
  | expectedListComma => "expected `,` or `]`"
  | expectedObjectComma => "expected `,` or `\x7d`"
  | expectedWord => "expected ident"
  | expectedValue => "expected value"
  | expectedQuote => "expected `\"`"
  | invalidEscape => "invalid escape"
  | invalidNumber => "invalid number"
  | numberOutOfRange => "number out of range"
  | invalidCodePoint => "invalid unicode code point"
  | controlCharacter => "control character (\\u0000-\\u001F) found while parsing a string"
  | keyNotText => "key must be a string"
  | keyNotNumeric => "invalid value: expected key to be a number in quotes"
  | loneSurrogate => "lone leading surrogate in hex escape"
  | trailingComma => "trailing comma"
  | trailingCharacters => "trailing characters"
  | cutEscape => "unexpected end of hex escape"
  | tooDeep => "recursion limit exceeded"

inductive Fault where
  | grammar (g : Grammar)
  | refused (c : Cause)
deriving Repr, DecidableEq

def Fault.message : Fault → String
  | grammar g => g.message
  | refused c => c.message .document

structure Place where
  line : Nat
  column : Nat
deriving Repr, DecidableEq

namespace Place

def newline : UInt8 := 10

/-- The place after the bytes read so far. -/
def after (read : Bytes) : Place :=
  ⟨1 + (read.filter (· == newline)).length, (read.reverse.takeWhile (· != newline)).length⟩

end Place

/-- A fault, with its place when it has one. -/
structure Error where
  fault : Fault
  place : Option Place
deriving Repr, DecidableEq

def Error.message (e : Error) : String :=
  match e.place with
  | some p => s!"{e.fault.message} at line {p.line} column {p.column}"
  | none => e.fault.message

end Json
end CacheFacade
