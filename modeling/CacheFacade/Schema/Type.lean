import CacheFacade.Schema.Value

/-!
Types of cached values, described by data: scalars, sequences, maps, records, variants, and the
types whose form depends on what the format offers. A name is part of a type where messages show it.
-/

namespace CacheFacade

/-- How a field is written and what stands for it when it is absent. -/
structure FieldSpec where
  name : String
  absent : Option Val
  /-- The field is left out when it holds no value. -/
  omitNone : Bool

def FieldSpec.plain (name : String) : FieldSpec := ⟨name, none, false⟩

/-- What a probe asks a format for. -/
inductive Request where
  | any
  | bool
  | char
  | text
  | identifier
  | bytes
  | option
  | unit
  | wrapper
  | list
  | tuple (size : Nat)
  | map
  | record (size : Nat)
  | ignored
deriving Repr, DecidableEq

mutual

inductive Ty where
  | bool
  | int (k : IntKind)
  | f32
  | f64
  | char
  | text
  | bytes
  | unit
  | unitNamed (name : String)
  | option (t : Ty)
  | list (t : Ty)
  | tuple (ts : List Ty)
  | tupleNamed (name : String) (ts : List Ty)
  | map (key value : Ty)
  /-- A named wrapper around one value, without a form of its own. -/
  | wrapper (name : String) (t : Ty)
  /-- A record; a strict one refuses fields that it does not know. -/
  | record (name : String) (strict : Bool) (fields : List (FieldSpec × Ty))
  /-- A record whose other fields are kept as a map of documents. -/
  | openRecord (name : String) (fields : List (FieldSpec × Ty))
  /-- Variants written as their name, or under their name when they hold something. -/
  | choice (name : String) (variants : List (String × Body))
  /-- Variants written as records with a field that names the variant. -/
  | tagged (name tag : String) (variants : List (String × Body))
  /-- Alternatives written as they are; the first one that reads the input wins. -/
  | untagged (name : String) (alternatives : List Ty)
  | document
  /-- An even 64-bit integer; an odd one is refused on the way in and out. -/
  | even
  /-- An absent value that reads as a unit. -/
  | bareNone
  | probe (r : Request)

/-- What a variant holds. -/
inductive Body where
  | unit
  | wrap (t : Ty)
  | tuple (ts : List Ty)
  | record (fields : List (FieldSpec × Ty))

end

namespace Ty

/-- How a message names what a type would have accepted. -/
def expecting : Ty → String
  | bool => "a boolean"
  | int k => k.name
  | f32 => "f32"
  | f64 => "f64"
  | char => "a character"
  | text => "a string"
  | bytes => "a byte array"
  | unit | bareNone => "unit"
  | unitNamed name => s!"unit struct {name}"
  | option _ => "option"
  | list _ => "a sequence"
  | tuple ts => s!"a tuple of size {ts.length}"
  | tupleNamed name _ => s!"tuple struct {name}"
  | map _ _ => "a map"
  | wrapper name _ => s!"tuple struct {name}"
  | record name _ _ | openRecord name _ => s!"struct {name}"
  | choice name _ => s!"enum {name}"
  | tagged name _ _ => s!"internally tagged enum {name}"
  | untagged name _ => s!"untagged enum {name}"
  | document => "any valid JSON value"
  | even => IntKind.i64.name
  | probe _ => "anything"

end Ty

def fieldNames (fields : List (FieldSpec × Ty)) : List String := fields.map fun f => f.1.name

def variantNames (variants : List (String × Body)) : List String := variants.map (·.1)

end CacheFacade
