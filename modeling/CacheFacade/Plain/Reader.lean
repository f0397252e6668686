import CacheFacade.Json.Reader
import CacheFacade.Numeral.Decimal

/-!
Reading what the plain strategy writes. A type that asks for a scalar gets the whole text, read by
the rule of that scalar; a type that asks for a value with parts gets a document. A type that takes
what comes gets a document when the bytes are one, and the text otherwise.
-/

namespace CacheFacade
namespace Plain

inductive Fault where
  | notText (f : Utf8.Fault)
  | notTruth (s : String)
  | notInteger (s : String) (f : Integer.Fault)
  | notNumber (s : String) (f : Decimal.Fault)
  | notChar (s : String)
  | document (e : Json.Error)
  | refused (dialect : Dialect) (c : Cause)
deriving Repr, DecidableEq

def Fault.message : Fault → String
  | notText f => f.message
  | notTruth s => s!"{Quoted.text s}: provided string was not `true` or `false`"
  | notInteger s f => s!"{Quoted.text s}: {f.message}"
  | notNumber s f => s!"{Quoted.text s}: {f.message}"
  | notChar s => s!"{Quoted.text s} is not a single char"
  | document e => e.message
  | refused dialect c => c.message dialect

abbrev Result := Except Fault Val

def text (bs : Bytes) : Except Fault String :=
  match Utf8.decode bs with
  | .ok s => .ok s
  | .error f => .error (.notText f)

def truth (s : String) : Except Fault Bool :=
  if s = "true" then .ok true else if s = "false" then .ok false else .error (.notTruth s)

def integer (k : IntKind) (s : String) : Except Fault Int :=
  match Integer.read k s with
  | .ok n => .ok n
  | .error f => .error (.notInteger s f)

def number (f : FloatFormat) (s : String) : Except Fault Nat :=
  match Decimal.read f s with
  | .ok bits => .ok bits
  | .error e => .error (.notNumber s e)

def char (s : String) : Except Fault Char :=
  match s.toList with
  | [c] => .ok c
  | _ => .error (.notChar s)

def ofDocument {α : Type} : Except Json.Error α → Except Fault α
  | .ok v => .ok v
  | .error e => .error (.document e)

def byCause {α : Type} (dialect : Dialect) : Except Cause α → Except Fault α
  | .ok v => .ok v
  | .error c => .error (.refused dialect c)

/-- What bytes offer to a type that takes what comes. -/
inductive Offer where
  | document (d : Document)
  | text (s : String)
  | bytes (bs : Bytes)

def offer (bs : Bytes) : Offer :=
  match Json.readDocument bs with
  | .ok d => .document d.normalize
  | .error _ =>
    match Utf8.decode bs with
    | .ok s => .text s
    | .error _ => .bytes bs

/-- The offer as a document; a text is a document, and bytes are none. -/
def Offer.document? : Offer → Option Document
  | document d => some d
  | text s => some (.text s)
  | bytes _ => none

def probeAny (bs : Bytes) : Sighting :=
  match offer bs with
  | .document d => .ofDocument d
  | .text s => .text s
  | .bytes raw => .bytes raw

/-- A variant known by its name alone. -/
def named (names : List String) (bodies : List Body) (s : String) : Result :=
  byCause .plain do
    let i ← Json.Buffered.variantAt names s
    match bodies[i]? with
    | some .unit => return .variant i .unit
    | some (.wrap _) => .error (.invalidType .unitVariant "newtype variant")
    | some (.tuple _) => .error (.invalidType .unitVariant "tuple variant")
    | some (.record _) => .error (.invalidType .unitVariant "struct variant")
    | none => .error (.unknownVariant s names)

def openBrace : UInt8 := 123

/-- A tagged value: what holds the tag is judged as a document, the content after that by itself. -/
def tagged (expected tag : String) (names : List String) (readers : List Json.Buffered.Reader) :
    Offer → Result
  | .bytes _ => byCause .plain (.error (.invalidType .bytes expected))
  | .text s => byCause .plain (.error (.invalidType (.text s) expected))
  | .document d => do
    let (head, rest) ← byCause .document (Json.Buffered.splitTag expected tag d)
    let i ← byCause .document (Json.Buffered.identifier "variant identifier" names head)
    match readers[i]? with
    | some r => return .variant i (← byCause .plain (r rest))
    | none => byCause .plain (.error (.missingField tag))

/-- Bytes offered to alternatives; as a byte string they may still be taken. -/
def untagged (name : String) (ts : List Ty) (readers : List Json.Buffered.Reader) (o : Offer) :
    Result :=
  let chosen := match o with
    | .bytes raw => Json.Buffered.firstOf (ts.map fun t _ => t.accept (.bytes raw)) 0 .null
    | .text s => Json.Buffered.firstOf readers 0 (.text s)
    | .document d => Json.Buffered.firstOf readers 0 d
  match chosen with
  | some v => .ok v
  | none => byCause .plain (.error (Json.Buffered.untaggedFault name))

def probe (bs : Bytes) : Request → Result
  | .any => .ok (.sighting (probeAny bs))
  | .bool => do return .sighting (.bool (← truth (← text bs)))
  | .char => do return .sighting (.char (← char (← text bs)))
  | .text | .identifier => do return .sighting (.text (← text bs))
  | .wrapper => .ok (.sighting (.wrapper (probeAny bs)))
  | .ignored => .ok (.sighting .unit)
  | r => ofDocument (Json.read (.probe r) bs)

def read : Ty → Bytes → Result
  | .bool, bs => do return .bool (← truth (← text bs))
  | .int k, bs => do return .int (← integer k (← text bs))
  | .f32, bs => do return .f32 (← number .binary32 (← text bs)).toUInt32
  | .f64, bs => do return .f64 (← number .binary64 (← text bs)).toUInt64
  | .char, bs => do return .char (← char (← text bs))
  | .text, bs => do return .text (← text bs)
  | .even, bs => do
    let n ← integer .i64 (← text bs)
    byCause .plain (Ty.checkEven (.int n))
  | .wrapper _ t, bs => read t bs
  | .choice name variants, bs =>
    if bs.head? == some openBrace then ofDocument (Json.read (.choice name variants) bs)
    else do named (variantNames variants) (variants.map (·.2)) (← text bs)
  | .tagged name tag variants, bs =>
    tagged (Ty.tagged name tag variants).expecting tag (variantNames variants)
      (Json.Buffered.contents name variants) (offer bs)
  | .untagged name alternatives, bs =>
    untagged name alternatives (Json.Buffered.readers alternatives) (offer bs)
  | .document, bs =>
    match (offer bs).document? with
    | some d => .ok (.document d)
    | none => byCause .plain (.error (.invalidType .bytes Ty.document.expecting))
  | .probe r, bs => probe bs r
  | t, bs => ofDocument (Json.read t bs)

end Plain
end CacheFacade
