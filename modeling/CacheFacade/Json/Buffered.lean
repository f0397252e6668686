import CacheFacade.Schema.Acceptance

/-!
Reading a typed value from a document that is already in memory. Types whose form depends on what
the input holds are read this way, because they look at the document before they choose.
-/

namespace CacheFacade
namespace Json

def elements (n : Nat) : String := if n = 1 then "1 element" else s!"{n} elements"

namespace Buffered

abbrev Reader := Document → Except Cause Val

def foundIn : Document → Found
  | .null => .unit
  | .bool b => .bool b
  | .int n => .integer n
  | .float bits => .float bits
  | .text s => .text s
  | .array _ => .list
  | .object _ => .map

def refuse {α : Type} (expected : String) (d : Document) : Except Cause α :=
  .error (.invalidType (foundIn d) expected)

def scalarIn (t : Ty) : Reader
  | .null => t.accept .unit
  | .bool b => t.accept (.bool b)
  | .int n => t.accept (.int n)
  | .float bits => t.accept (.float bits)
  | .text s => t.accept (.text s)
  | d => refuse t.expecting d

/-- Reads one item per reader; `taken` items come before. Every item must be read. -/
def inOrder (what : String) (size : Nat) : List Reader → Nat → List Document →
    Except Cause (List Val)
  | [], _, [] => .ok []
  | [], taken, rest =>
    .error (.invalidLength (taken + rest.length) s!"{elements taken} in sequence")
  | _ :: _, taken, [] => .error (.invalidLength taken what)
  | r :: rs, taken, d :: ds => do
    let v ← r d
    return v :: (← inOrder what size rs (taken + 1) ds)

structure Slot where
  spec : FieldSpec
  ty : Ty
  read : Reader

/-- Fields as items; one with a value for its absence may be missing at the end. -/
def slotsInOrder (what : String) : List Slot → Nat → List Document → Except Cause (List Val)
  | [], _, [] => .ok []
  | [], taken, rest =>
    .error (.invalidLength (taken + rest.length) s!"{elements taken} in sequence")
  | slot :: slots, taken, [] =>
    match slot.spec.absent with
    | some v => do return v :: (← slotsInOrder what slots taken [])
    | none => .error (.invalidLength taken what)
  | slot :: slots, taken, d :: ds => do
    let v ← slot.read d
    return v :: (← slotsInOrder what slots (taken + 1) ds)

/-- Puts an entry into the slot of its name. -/
def place (strict : Bool) (slots : List Slot) (values : List (Option Val))
    (entry : String × Document) : Except Cause (List (Option Val)) :=
  match slots.findIdx? (fun s => s.spec.name == entry.1) with
  | none =>
    if strict then .error (.unknownField entry.1 (slots.map fun s => s.spec.name)) else .ok values
  | some i =>
    match values[i]?, slots[i]? with
    | some none, some slot => do
      let v ← slot.read entry.2
      return values.set i (some v)
    | _, _ => .error (.duplicateField entry.1)

def finish : List Slot → List (Option Val) → Except Cause (List Val)
  | slot :: slots, v :: vs => do
    let v ← match v with
      | some v => pure v
      | none => slot.spec.valueWhenAbsent slot.ty
    return v :: (← finish slots vs)
  | _, _ => .ok []

def record (expected : String) (strict : Bool) (slots : List Slot) :
    Document → Except Cause (List Val)
  | .array ds => slotsInOrder s!"{expected} with {elements slots.length}" slots 0 ds
  | .object es => do
    let values ← es.foldlM (place strict slots) (slots.map fun _ => none)
    finish slots values
  | d => refuse expected d

/-- The first alternative that reads the document. -/
def firstOf : List Reader → Nat → Document → Option Val
  | [], _, _ => none
  | r :: rs, i, d =>
    match r d with
    | .ok v => some (.variant i v)
    | .error _ => firstOf rs (i + 1) d

def untaggedFault (name : String) : Cause :=
  .custom s!"data did not match any variant of untagged enum {name}"

/-- The index of a variant and a reader of its content. -/
def variantAt (names : List String) (name : String) : Except Cause Nat :=
  match names.findIdx? (· == name) with
  | some i => .ok i
  | none => .error (.unknownVariant name names)

/-- How the content of a variant is read when only its name is there, and when content is there. -/
structure Arm where
  bare : Except Cause Val
  held : Reader

def choice (names : List String) (arms : List Arm) : Document → Except Cause Val
  | .text s => do
    let i ← variantAt names s
    match arms[i]? with
    | some arm => return .variant i (← arm.bare)
    | none => .error (.unknownVariant s names)
  | .object [(s, d)] => do
    let i ← variantAt names s
    match arms[i]? with
    | some arm => return .variant i (← arm.held d)
    | none => .error (.unknownVariant s names)
  | .object _ => .error (.invalidValue .map "map with a single key")
  | d => refuse "string or map" d

/-- The tag of a document and what else it holds. -/
def splitTag (expected tag : String) : Document → Except Cause (Document × Document)
  | .array [] => .error (.missingField tag)
  | .array (d :: ds) => .ok (d, .array ds)
  | .object es =>
    match es.filter (·.1 == tag) with
    | [] => .error (.missingField tag)
    | [(_, d)] => .ok (d, .object (es.filter (·.1 != tag)))
    | _ => .error (.duplicateField tag)
  | d => refuse expected d

def identifier (expected : String) (names : List String) : Document → Except Cause Nat
  | .text s => variantAt names s
  | d => refuse expected d

def tagged (expected tag : String) (names : List String) (readers : List Reader) (d : Document) :
    Except Cause Val := do
  let (head, rest) ← splitTag expected tag d
  let i ← identifier "variant identifier" names head
  match readers[i]? with
  | some r => return .variant i (← r rest)
  | none => refuse expected d

/-- A variant without content ignores the entries of an object, and wants a list to be empty. -/
def nothing (expected : String) : Reader
  | .object _ => .ok .unit
  | .array [] => .ok .unit
  | .array ds => .error (.invalidLength ds.length "0 elements in sequence")
  | d => refuse expected d

def openEntries (slots : List Slot) (es : List (String × Document)) : Except Cause Val := do
  let values ← es.foldlM (place false slots) (slots.map fun _ => none)
  let known ← finish slots values
  let names := slots.map fun s => s.spec.name
  let extra := Document.sortEntries (es.filter fun e => !names.contains e.1)
  return .list (known ++ [.map (extra.map fun e => (.text e.1, .document e.2.normalize))])

mutual

/-- The value of a type that a document holds. -/
def read : Ty → Document → Except Cause Val
  | .option t, d =>
    match d with
    | .null => .ok .none
    | d => do return .some (← read t d)
  | .list t, d =>
    match d with
    | .array ds => do return .list (← ds.mapM fun d => read t d)
    | d => refuse "a sequence" d
  | .bytes, d =>
    match d with
    | .array ds => do
      let vs ← ds.mapM fun d => scalarIn (.int .u8) d
      return .bytes (vs.filterMap fun v => match v with
        | .int n => some n.toNat.toUInt8
        | _ => none)
    | d => scalarIn .bytes d
  | .tuple ts, d =>
    match d with
    | .array ds => do
      return .list (← inOrder (Ty.tuple ts).expecting ts.length (readers ts) 0 ds)
    | d => refuse (Ty.tuple ts).expecting d
  | .tupleNamed name ts, d =>
    match d with
    | .array ds => do
      let what := s!"tuple struct {name} with {elements ts.length}"
      return .list (← inOrder what ts.length (readers ts) 0 ds)
    | d => refuse (Ty.tupleNamed name ts).expecting d
  | .map k t, d =>
    match d with
    | .object es => do
      let vs ← es.mapM fun e => do return (← read k (.text e.1), ← read t e.2)
      return .map (Val.sortEntries vs)
    | d => refuse "a map" d
  | .wrapper _ t, d => read t d
  | .record name strict fields, d => do
    return .list (← record s!"struct {name}" strict (slots fields) d)
  | .openRecord name fields, d =>
    match d with
    | .object es => openEntries (slots fields) es
    | d => refuse s!"struct {name}" d
  | .choice name variants, d => choice (variantNames variants) (arms name variants) d
  | .tagged name tag variants, d =>
    tagged (Ty.tagged name tag variants).expecting tag (variantNames variants)
      (contents name variants) d
  | .untagged name alternatives, d =>
    match firstOf (readers alternatives) 0 d with
    | some v => .ok v
    | none => .error (untaggedFault name)
  | .document, d => .ok (.document d.normalize)
  | .even, d => scalarIn .even d
  | .probe _, d => .ok (.sighting (.ofDocument d))
  | .bool, d => scalarIn .bool d
  | .int k, d => scalarIn (.int k) d
  | .f32, d => scalarIn .f32 d
  | .f64, d => scalarIn .f64 d
  | .char, d => scalarIn .char d
  | .text, d => scalarIn .text d
  | .unit, d => scalarIn .unit d
  | .unitNamed name, d => scalarIn (.unitNamed name) d
  | .bareNone, d => scalarIn .bareNone d

def readers : List Ty → List Reader
  | [] => []
  | t :: ts => (fun d => read t d) :: readers ts

def slots : List (FieldSpec × Ty) → List Slot
  | [] => []
  | (spec, t) :: fields => ⟨spec, t, fun d => read t d⟩ :: slots fields

def arms (name : String) : List (String × Body) → List Arm
  | [] => []
  | (variant, body) :: rest => armOf s!"{name}::{variant}" body :: arms name rest

def armOf (path : String) : Body → Arm
  | .unit => ⟨.ok .unit, scalarIn .unit⟩
  | .wrap t => ⟨.error (.invalidType .unitVariant "newtype variant"), fun d => read t d⟩
  | .tuple ts =>
    ⟨.error (.invalidType .unitVariant "tuple variant"), fun d =>
      match d with
      | .array ds => do
        let what := s!"tuple variant {path} with {elements ts.length}"
        return .list (← inOrder what ts.length (readers ts) 0 ds)
      | _ => .error (.invalidType (foundIn d) "tuple variant")⟩
  | .record fields =>
    ⟨.error (.invalidType .unitVariant "struct variant"), fun d => do
      return .list (← record s!"struct variant {path}" false (slots fields) d)⟩

/-- Readers of the content that stands beside a tag. -/
def contents (name : String) : List (String × Body) → List Reader
  | [] => []
  | (variant, body) :: rest => contentOf s!"{name}::{variant}" body :: contents name rest

def contentOf (path : String) : Body → Reader
  | .unit => nothing s!"unit variant {path}"
  | .wrap t => fun d => read t d
  | .tuple ts => fun d =>
    match d with
    | .array ds => do
      let what := s!"tuple variant {path} with {elements ts.length}"
      return .list (← inOrder what ts.length (readers ts) 0 ds)
    | d => refuse s!"tuple variant {path}" d
  | .record fields => fun d => do
    return .list (← record s!"struct variant {path}" false (slots fields) d)

end

end Buffered
end Json
end CacheFacade
