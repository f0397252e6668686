import CacheFacade.Json.Bracket
import CacheFacade.Json.Buffered

/-!
Reading a typed value from a document text. The type leads: it says what it would take at each
place, and the text is refused at the first place where something else stands. Types whose form
depends on the input read a document first and choose afterwards.
-/

namespace CacheFacade
namespace Json

open Scan

namespace Reader

/-- A scalar that the type takes. -/
def scalar (t : Ty) : Scan Val := placed do
  match ← offer with
  | .scalar s => ofExcept (t.accept s)
  | o => refuse (.invalidType o.found t.expecting)

/-- A value between brackets; a bracket without a scan for it is refused as any scalar is. -/
def bracketed {α : Type} (expected : String) (depth : Nat)
    (onList onObject : Option (Nat → Scan α)) : Scan α := do
  match ← blanks, onList, onObject with
  | none, _, _ => failNext .endInValue
  | some 91, some s, _ => deeper (fun d => enclosed closeList (s d)) depth
  | some 123, _, some s => deeper (fun d => enclosed closeObject (s d)) depth
  | some _, _, _ => refuseOffer expected

def byteOf : Val → UInt8
  | .int n => n.toNat.toUInt8
  | _ => 0

/-- A byte string, from a loose text or from a list of small numbers. -/
def byteString (depth : Nat) : Scan Val := do
  match ← blanks with
  | some 34 =>
    skip
    return .bytes (← Text.looseBytes)
  | _ =>
    bracketed Ty.bytes.expecting depth
      (some fun _ => do return .bytes ((← items (scalar (.int .u8))).map byteOf)) none

/-- An absent value, or a present one. -/
def optional {α : Type} (absent : α) (present : Scan α) : Scan α := do
  match ← blanks with
  | some 110 =>
    skip
    expectWord [117, 108, 108]
    return absent
  | _ => present

/-- One item per scan; the list may be longer, which its end shows. -/
def inOrder (what : String) : List (Scan Val) → Nat → Bool → Scan (List Val)
  | [], _, _ => pure []
  | s :: ss, taken, first => do
    if ← listGoesOn first then
      let v ← s
      return v :: (← inOrder what ss (taken + 1) false)
    else refuse (.invalidLength taken what)

structure Slot where
  spec : FieldSpec
  ty : Ty
  scan : Scan Val

/-- Fields as items; one with a value for its absence may be missing at the end. -/
def slotsInOrder (what : String) : List Slot → Nat → Bool → Scan (List Val)
  | [], _, _ => pure []
  | slot :: slots, taken, first => do
    if ← listGoesOn first then
      let v ← slot.scan
      return v :: (← slotsInOrder what slots (taken + 1) false)
    else
      match slot.spec.absent with
      | some v => return v :: (← slotsInOrder what slots (taken + 1) first)
      | none => refuse (.invalidLength taken what)

/-- The fields read so far, and the entries that are no field. -/
structure Gathered where
  values : List (Option Val)
  others : List (String × Document)

/-- One entry of a record; `other` reads the value of an entry that is no field. -/
def gather (slots : List Slot) (other : String → Scan (List (String × Document))) (g : Gathered) :
    Scan Gathered := do
  let name ← entryName
  match slots.findIdx? (fun s => s.spec.name == name) with
  | none =>
    let more ← other name
    return { g with others := g.others ++ more }
  | some i =>
    match g.values[i]?, slots[i]? with
    | some none, some slot =>
      colon
      let v ← slot.scan
      return { g with values := g.values.set i (some v) }
    | _, _ => refuse (.duplicateField name)

def gatherAll (slots : List Slot) (other : String → Scan (List (String × Document))) :
    Nat → Bool → Gathered → Scan Gathered
  | 0, _, g => pure g
  | fuel + 1, first, g => do
    if ← objectGoesOn first then
      let g ← gather slots other g
      gatherAll slots other fuel false g
    else pure g

def finish : List Slot → List (Option Val) → Except Cause (List Val)
  | slot :: slots, v :: vs => do
    let v ← match v with
      | some v => pure v
      | none => slot.spec.valueWhenAbsent slot.ty
    return v :: (← finish slots vs)
  | _, _ => .ok []

def gathered (slots : List Slot) (other : String → Scan (List (String × Document))) :
    Scan Gathered := fun bs =>
  gatherAll slots other (bs.length + 1) true ⟨slots.map fun _ => none, []⟩ bs

/-- Passes over an entry that is no field, or refuses it. -/
def stranger (strict : Bool) (slots : List Slot) (name : String) :
    Scan (List (String × Document)) := do
  if strict then refuse (.unknownField name (slots.map fun s => s.spec.name))
  else
    colon
    Skip.value
    return []

def recordEntries (strict : Bool) (slots : List Slot) : Scan (List Val) := do
  let g ← gathered slots (stranger strict slots)
  ofExcept (finish slots g.values)

def record (expected : String) (strict : Bool) (depth : Nat) (slots : Nat → List Slot) :
    Scan Val :=
  bracketed expected depth
    (some fun d => do
      let slots := slots d
      let what := s!"{expected} with {elements slots.length}"
      return .list (← slotsInOrder what slots 0 true))
    (some fun d => do return .list (← recordEntries strict (slots d)))

def keptEntry (depth : Nat) (name : String) : Scan (List (String × Document)) := do
  colon
  return [(name, ← document depth)]

/-- A record that keeps the entries that are no field. -/
def openRecord (expected : String) (depth : Nat) (slots : Nat → List Slot) : Scan Val :=
  bracketed expected depth none (some fun d => do
    let slots := slots d
    let g ← gathered slots (keptEntry d)
    let known ← ofExcept (finish slots g.values)
    let extra := Document.sortEntries g.others
    return .list (known ++ [.map (extra.map fun e => (.text e.1, .document e.2.normalize))]))

/-- The index of the variant that a text names. -/
def variantName (names : List String) : Scan Nat := placed do
  match ← offer with
  | .scalar (.text s) => ofExcept (Buffered.variantAt names s)
  | o => refuse (.invalidType o.found "variant identifier")

/-- How the content of a variant is read when only its name is there, and when content is there. -/
structure Arm where
  bare : Except Cause Val
  held : Nat → Scan Val

def choice (expected : String) (depth : Nat) (names : List String) (arms : List Arm) :
    Scan Val := do
  match ← blanks with
  | none => failNext .endInValue
  | some 34 =>
    let i ← variantName names
    match arms[i]? with
    | some arm => return .variant i (← ofExcept arm.bare)
    | none => refuseOffer expected
  | some 123 =>
    let v ← deeper (fun d => do
      match ← blanks with
      | some 34 => pure ()
      | some 125 => failNext .expectedValue
      | some _ => failNext .keyNotText
      | none => failNext .endInObject
      let i ← variantName names
      colon
      match arms[i]? with
      | some arm => return .variant i (← arm.held d)
      | none => refuseOffer expected) depth
    match ← blanks with
    | some 125 =>
      skip
      return v
    | some _ => fail .expectedValue
    | none => fail .endInObject
  | some _ => failNext .expectedValue

/-- The tag and the other entries of a tagged value, one entry at a time. -/
def tagEntries (tag : String) (names : List String) (depth : Nat) :
    Nat → Bool → Option Nat → List (String × Document) → Scan (Nat × Document)
  | 0, _, _, _ => refuse (.missingField tag)
  | fuel + 1, first, seen, others => do
    if ← objectGoesOn first then
      let name ← entryName
      if name == tag then
        if seen.isSome then refuse (.duplicateField tag)
        else
          colon
          let i ← variantName names
          tagEntries tag names depth fuel false (some i) others
      else
        colon
        let d ← document depth
        tagEntries tag names depth fuel false seen (others ++ [(name, d)])
    else
      match seen with
      | some i => pure (i, .object others)
      | none => refuse (.missingField tag)

def tagItems (tag : String) (names : List String) (depth : Nat) : Scan (Nat × Document) := do
  if ← listGoesOn true then
    let i ← variantName names
    let rest ← fun bs => itemsFrom (document depth) (bs.length + 1) false bs
    return (i, .array rest)
  else refuse (.missingField tag)

/-- A tagged value: what stands in the text is read first, the content after that. -/
def tagged (expected tag : String) (depth : Nat) (names : List String)
    (readers : List Buffered.Reader) : Scan Val := do
  let (i, rest) ← bracketed expected depth
    (some (tagItems tag names))
    (some fun d bs => tagEntries tag names d (bs.length + 1) true none [] bs)
  match readers[i]? with
  | some r => return .variant i (← ofExcept (r rest))
  | none => refuseOffer expected

def untagged (name : String) (depth : Nat) (readers : List Buffered.Reader) : Scan Val := do
  match Buffered.firstOf readers 0 (← document depth) with
  | some v => pure v
  | none => refuse (Buffered.untaggedFault name)

def probeItems (d : Nat) : Scan Sighting := do
  return .list ((← items (document d)).map Document.normalize)

def probeEntries (d : Nat) : Scan Sighting := do
  return .map (← entries do
    let name ← entryName
    colon
    return (.text name, (← document d).normalize))

/-- What a probe sees of a scalar that it asked for. -/
def probeScalar (wanted : Scalar → Bool) : Scan Sighting := placed do
  match ← offer with
  | .scalar s => if wanted s then pure s.sighting else refuse (.invalidType s.found "anything")
  | o => refuse (.invalidType o.found "anything")

def probeBrackets (depth : Nat) (list object : Bool) : Scan Sighting :=
  bracketed "anything" depth (if list then some probeItems else none)
    (if object then some probeEntries else none)

def probeAny (depth : Nat) : Scan Sighting := do
  match ← blanks with
  | some 91 | some 123 => probeBrackets depth true true
  | _ => probeScalar fun _ => true

def probe (depth : Nat) : Request → Scan Sighting
  | .any => probeAny depth
  | .bool => probeScalar fun
    | .bool _ => true
    | _ => false
  | .char | .text | .identifier => probeScalar fun
    | .text _ => true
    | _ => false
  | .unit => probeScalar fun
    | .unit => true
    | _ => false
  | .bytes => do
    match ← blanks with
    | some 34 =>
      skip
      return .bytes (← Text.looseBytes)
    | _ => probeBrackets depth true false
  | .option => optional .none do return .some (← probeAny depth)
  | .wrapper => do return .wrapper (← probeAny depth)
  | .list | .tuple _ => probeBrackets depth true false
  | .map => probeBrackets depth false true
  | .record _ => probeBrackets depth true true
  | .ignored => do
    Skip.value
    return .unit

/-- An integer in the quotes of a name. -/
def quotedNumber (s : Scan Val) : Scan Val := do
  skip
  match ← peek with
  | some b => if b == 45 || isDigit b then pure () else fail .keyNotNumeric
  | none => fail .keyNotNumeric
  let v ← s
  if (← peek) == some quote then
    skip
    return v
  else failNext .expectedQuote

/-- A truth value in the quotes of a name; a name with another first letter is read on from its
second one. -/
def quotedBool : Scan Val := do
  skip
  match ← next with
  | some 116 =>
    expectWord [114, 117, 101, 34]
    return .bool true
  | some 102 =>
    expectWord [97, 108, 115, 101, 34]
    return .bool false
  | some _ => placed do
    let s ← Text.text
    refuse (.invalidType (.text s) Ty.bool.expecting)
  | none => failNext .endInValue

def quotedText (t : Ty) : Scan Val := do
  let s ← entryName
  ofExcept (t.accept (.text s))

mutual

/-- The value of a type at a place. `depth` levels of brackets may be opened. -/
def read : Ty → Nat → Scan Val
  | .bool, _ => scalar .bool
  | .int ⟨signed, .w128⟩, _ => do return .int (← Number.wide ⟨signed, .w128⟩)
  | .int k, _ => scalar (.int k)
  | .f32, _ => scalar .f32
  | .f64, _ => scalar .f64
  | .char, _ => scalar .char
  | .text, _ => scalar .text
  | .unit, _ => scalar .unit
  | .unitNamed name, _ => scalar (.unitNamed name)
  | .bareNone, _ => scalar .bareNone
  | .even, _ => do
    let v ← scalar (.int .i64)
    ofExcept (Ty.checkEven v)
  | .bytes, depth => byteString depth
  | .option t, depth => optional .none do return .some (← read t depth)
  | .list t, depth =>
    bracketed (Ty.list t).expecting depth
      (some fun d => do return .list (← items (read t d))) none
  | .tuple ts, depth =>
    bracketed (Ty.tuple ts).expecting depth
      (some fun d => do return .list (← inOrder (Ty.tuple ts).expecting (scans ts d) 0 true)) none
  | .tupleNamed name ts, depth =>
    bracketed s!"tuple struct {name}" depth
      (some fun d => do
        let what := s!"tuple struct {name} with {elements ts.length}"
        return .list (← inOrder what (scans ts d) 0 true)) none
  | .map k t, depth =>
    bracketed (Ty.map k t).expecting depth none
      (some fun d => do
        let es ← entries do
          let key ← readKey k d
          colon
          return (key, ← read t d)
        return .map (Val.sortEntries es))
  | .wrapper _ t, depth => read t depth
  | .record name strict fields, depth => record s!"struct {name}" strict depth (slots fields)
  | .openRecord name fields, depth => openRecord s!"struct {name}" depth (slots fields)
  | .choice name variants, depth =>
    choice s!"enum {name}" depth (variantNames variants) (arms name variants)
  | .tagged name tag variants, depth =>
    tagged s!"internally tagged enum {name}" tag depth (variantNames variants)
      (Buffered.contents name variants)
  | .untagged name alternatives, depth => untagged name depth (Buffered.readers alternatives)
  | .document, depth => do return .document (← document depth).normalize
  | .probe r, depth => do return .sighting (← probe depth r)

def scans : List Ty → Nat → List (Scan Val)
  | [], _ => []
  | t :: ts, depth => read t depth :: scans ts depth

def slots : List (FieldSpec × Ty) → Nat → List Slot
  | [], _ => []
  | (spec, t) :: fields, depth => ⟨spec, t, read t depth⟩ :: slots fields depth

def arms (name : String) : List (String × Body) → List Arm
  | [] => []
  | (variant, body) :: rest => armOf s!"{name}::{variant}" body :: arms name rest

def armOf (path : String) : Body → Arm
  | .unit => ⟨.ok .unit, fun _ => scalar .unit⟩
  | .wrap t => ⟨.error (.invalidType .unitVariant "newtype variant"), fun depth => read t depth⟩
  | .tuple ts =>
    ⟨.error (.invalidType .unitVariant "tuple variant"), fun depth =>
      bracketed s!"tuple variant {path}" depth
        (some fun d => do
          let what := s!"tuple variant {path} with {elements ts.length}"
          return .list (← inOrder what (scans ts d) 0 true)) none⟩
  | .record fields =>
    ⟨.error (.invalidType .unitVariant "struct variant"), fun depth =>
      record s!"struct variant {path}" false depth (slots fields)⟩

/-- The value of a key type in the quotes of a name. -/
def readKey : Ty → Nat → Scan Val
  | .bool, _ => quotedBool
  | .int ⟨signed, .w128⟩, _ =>
    quotedNumber do return .int (← Number.wide ⟨signed, .w128⟩)
  | .int k, _ => quotedNumber (scalar (.int k))
  | .f32, _ => quotedNumber (scalar .f32)
  | .f64, _ => quotedNumber (scalar .f64)
  | .even, _ => do
    let v ← quotedNumber (scalar (.int .i64))
    ofExcept (Ty.checkEven v)
  | .bytes, depth => byteString depth
  | .option t, depth => do return .some (← readKey t depth)
  | .wrapper _ t, depth => readKey t depth
  | .choice name variants, depth =>
    choice s!"enum {name}" depth (variantNames variants) (arms name variants)
  | .untagged name alternatives, _ => do
    let s ← entryName
    match Buffered.firstOf (Buffered.readers alternatives) 0 (.text s) with
    | some v => pure v
    | none => refuse (Buffered.untaggedFault name)
  | t, _ => quotedText t

end

end Reader

/-- The value of a type that a whole text holds. -/
def read (t : Ty) (bs : Bytes) : Except Error Val := (Reader.read t deepest).run bs

def readDocument (bs : Bytes) : Except Error Document := (document deepest).run bs

end Json
end CacheFacade
