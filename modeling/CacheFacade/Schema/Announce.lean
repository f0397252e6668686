import CacheFacade.Schema.Acceptance

/-!
What a typed value announces of itself to a format: scalars with their width, sequences and maps
with their items, records with their field names, variants with index and name. Formats write this
form and know no types.
-/

namespace CacheFacade

inductive Datum where
  | bool (b : Bool)
  | int (k : IntKind) (n : Int)
  | f32 (bits : UInt32)
  | f64 (bits : UInt64)
  | char (c : Char)
  | text (s : String)
  | bytes (bs : Bytes)
  | none
  | some (d : Datum)
  | unit
  | list (items : List Datum)
  | tuple (items : List Datum)
  /-- A map; one whose size is not announced beforehand is not sized. -/
  | map (sized : Bool) (entries : List (Datum × Datum))
  | record (fields : List (String × Datum))
  | unitVariant (index : Nat) (name : String)
  | wrapVariant (index : Nat) (name : String) (d : Datum)
  | tupleVariant (index : Nat) (name : String) (items : List Datum)
  | recordVariant (index : Nat) (name : String) (fields : List (String × Datum))
  /-- A value that refuses to be written. -/
  | refusal (text : String)
deriving Inhabited

namespace Document

def kindOf (n : Int) : IntKind := if 0 ≤ n then .u64 else .i64

mutual

def announce : Document → Datum
  | .null => .unit
  | .bool b => .bool b
  | .int n => .int (kindOf n) n
  | .float bits => .f64 bits
  | .text s => .text s
  | .array items => .list (announceItems items)
  | .object entries => .map true (announceEntries entries)

def announceItems : List Document → List Datum
  | [] => []
  | d :: ds => announce d :: announceItems ds

def announceEntries : List (String × Document) → List (Datum × Datum)
  | [] => []
  | (k, d) :: rest => (.text k, announce d) :: announceEntries rest

end

end Document

namespace Ty

def announceEven (n : Int) : Datum :=
  match checkEven (.int n) with
  | .ok _ => .int .i64 n
  | .error cause => .refusal (cause.message .document)

/-- Adds the field that names the variant to what the variant announces. -/
def announceTag (tag name : String) : Datum → Datum
  | .record fields => .record ((tag, .text name) :: fields)
  | .unit => .record [(tag, .text name)]
  | _ => .refusal s!"variant {name} cannot carry the field {tag}"

/-- Names and documents that an open record keeps beside its fields. -/
def announceExtra : Val → Datum
  | .text s => .text s
  | .document d => d.announce
  | _ => .unit

/-- A field that is left out when it holds no value announces nothing then. -/
def announceField (spec : FieldSpec) (v : Val) (d : Datum) : List (String × Datum) :=
  match spec.omitNone, v with
  | true, .none => []
  | _, _ => [(spec.name, d)]

mutual

/-- What a value of a type announces; a value of another type announces a unit. -/
def announce : Ty → Val → Datum
  | .bool, .bool b => .bool b
  | .int k, .int n => .int k n
  | .f32, .f32 bits => .f32 bits
  | .f64, .f64 bits => .f64 bits
  | .char, .char c => .char c
  | .text, .text s => .text s
  | .bytes, .bytes bs => .bytes bs
  | .option _, .none => .none
  | .option t, .some v => .some (announce t v)
  | .list t, .list vs => .list (vs.map fun v => announce t v)
  | .tuple ts, .list vs | .tupleNamed _ ts, .list vs => .tuple (announceAll ts vs)
  | .map k t, .map entries => .map true (entries.map fun e => (announce k e.1, announce t e.2))
  | .wrapper _ t, v => announce t v
  | .record _ _ fields, .list vs => .record (announceFields fields vs)
  | .openRecord _ fields, .list vs =>
    .map false ((announceFields fields vs).map (fun f => (.text f.1, f.2)) ++
      match vs.drop fields.length with
      | [.map extra] => extra.map fun e => (announceExtra e.1, announceExtra e.2)
      | _ => [])
  | .choice _ variants, .variant i v => announceVariant variants i i v
  | .tagged _ tag variants, .variant i v => announceTagged tag variants i v
  | .untagged _ alternatives, .variant i v => announceNth alternatives i v
  | .document, .document d => d.announce
  | .even, .int n => announceEven n
  | .bareNone, _ => .none
  | _, _ => .unit

def announceAll : List Ty → List Val → List Datum
  | t :: ts, v :: vs => announce t v :: announceAll ts vs
  | _, _ => []

def announceFields : List (FieldSpec × Ty) → List Val → List (String × Datum)
  | (spec, t) :: fields, v :: vs =>
    announceField spec v (announce t v) ++ announceFields fields vs
  | _, _ => []

def announceNth : List Ty → Nat → Val → Datum
  | [], _, _ => .unit
  | t :: _, 0, v => announce t v
  | _ :: ts, i + 1, v => announceNth ts i v

/-- The variant `index` of a choice is the head of the list once `left` is zero. -/
def announceVariant : List (String × Body) → (index left : Nat) → Val → Datum
  | [], _, _, _ => .unit
  | (name, body) :: _, index, 0, v => announceBody name body index v
  | _ :: variants, index, left + 1, v => announceVariant variants index left v

def announceBody (name : String) : Body → Nat → Val → Datum
  | .unit, index, _ => .unitVariant index name
  | .wrap t, index, v => .wrapVariant index name (announce t v)
  | .tuple ts, index, .list vs => .tupleVariant index name (announceAll ts vs)
  | .record fields, index, .list vs => .recordVariant index name (announceFields fields vs)
  | _, _, _ => .unit

def announceTagged (tag : String) : List (String × Body) → Nat → Val → Datum
  | [], _, _ => .unit
  | (name, body) :: _, 0, v => announceTag tag name (announceContent body v)
  | _ :: variants, i + 1, v => announceTagged tag variants i v

/-- What a variant announces of its content alone. -/
def announceContent : Body → Val → Datum
  | .unit, _ => .unit
  | .wrap t, v => announce t v
  | .tuple ts, .list vs => .tuple (announceAll ts vs)
  | .record fields, .list vs => .record (announceFields fields vs)
  | _, _ => .unit

end

end Ty
end CacheFacade
