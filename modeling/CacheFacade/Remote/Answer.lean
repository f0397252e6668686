import CacheFacade.Bytes
import CacheFacade.Numeral.FloatText
import CacheFacade.Numeral.Integer
import CacheFacade.Schema.Document
import CacheFacade.Text.Quoted

/-!
What a server answers, and what its answers are read as. A reading accepts several forms of answer;
what it does not accept is a mismatch, which shows the answer in the form for diagnosis.
-/

namespace CacheFacade
namespace Remote

inductive Answer where
  | nothing
  | okay
  | simple (s : String)
  | bulk (bs : Bytes)
  | integer (n : Int)
  | boolean (b : Bool)
  | double (bits : UInt64)
  | array (items : List Answer)
  | set (items : List Answer)
  | map (entries : List (Answer × Answer))

namespace Answer

def doubleText (bits : UInt64) : String :=
  match FloatFormat.binary64.decode bits.toNat with
  | .nan => "NaN"
  | .infinite negative => if negative then "-inf" else "inf"
  | .finite negative m e => FloatStyle.plain.text .binary64 negative m e

def describeBytes (bs : Bytes) : String :=
  match Utf8.decode bs with
  | .ok s => "bulk-string('" ++ Quoted.text s ++ "')"
  | .error _ => "binary-data([" ++ ", ".intercalate (bs.map fun b => toString b.toNat) ++ "])"

mutual

/-- The form for diagnosis. -/
def describe : Answer → String
  | nothing => "nil"
  | okay => "ok"
  | simple s => "simple-string(" ++ Quoted.text s ++ ")"
  | bulk bs => describeBytes bs
  | integer n => "int(" ++ Integer.text n ++ ")"
  | boolean b => "boolean(" ++ toString b ++ ")"
  | double bits => "double(" ++ doubleText bits ++ ")"
  | array items => "array([" ++ ", ".intercalate (describeAll items) ++ "])"
  | set items => "set([" ++ ", ".intercalate (describeAll items) ++ "])"
  | map entries => "map([" ++ ", ".intercalate (describeEntries entries) ++ "])"

def describeAll : List Answer → List String
  | [] => []
  | a :: items => a.describe :: describeAll items

def describeEntries : List (Answer × Answer) → List String
  | [] => []
  | (k, v) :: entries => ("(" ++ k.describe ++ ", " ++ v.describe ++ ")") :: describeEntries entries

end
end Answer

/-- Why an answer is not what was asked for. -/
inductive Mismatch where
  | unlike (why : String) (found : Answer)
  | notText

def Mismatch.message : Mismatch → String
  | unlike why found =>
    "Response was of incompatible type - TypeError: " ++ Quoted.text why ++ " (response was " ++
      found.describe ++ ")"
  | notText => "Invalid UTF-8- TypeError"

namespace Answer

abbrev Reading (α : Type) := Answer → Except Mismatch α

def textOf (bs : Bytes) : Except Mismatch String := (Utf8.decode bs).mapError fun _ => .notText

/-- The whole part of a double, kept within the range of the kind. -/
def wholePart (k : IntKind) (bits : UInt64) : Int :=
  match FloatFormat.binary64.decode bits.toNat with
  | .nan => 0
  | .infinite negative => if negative then k.least else k.greatest
  | .finite negative m e =>
    let (num, den) := scaleByTwo m 1 e
    let n : Int := (num / den : Nat)
    max k.least (min k.greatest (if negative then -n else n))

def numeral (k : IntKind) (a : Answer) (s : String) : Except Mismatch Int :=
  (Integer.read k s).mapError fun _ => .unlike "Could not convert from string." a

/-- An integer of a kind; a text stands for the number that it spells. -/
def readInteger (k : IntKind) : Reading Int
  | integer n => .ok (k.wrap n)
  | simple s => numeral k (simple s) s
  | bulk bs => do numeral k (bulk bs) (← textOf bs)
  | double bits => .ok (wholePart k bits)
  | a => .error (.unlike "Response type not convertible to numeric." a)

def readText : Reading String
  | okay => .ok "OK"
  | simple s => .ok s
  | bulk bs => textOf bs
  | integer n => .ok (Integer.text n)
  | double bits => .ok (doubleText bits)
  | a => .error (.unlike "Response type not string compatible." a)

def readByte (a : Answer) : Except Mismatch UInt8 := do
  return (← readInteger .u8 a).toNat.toUInt8

/-- What a reading makes of each entry of a map, seen as a map of one entry. -/
def readSingles {α : Type} (read : Reading α) (entries : List (Answer × Answer)) :
    Except Mismatch (List α) :=
  entries.mapM fun e => read (map [e])

def readBytes : Reading Bytes
  | bulk bs => .ok bs
  | simple s => .ok (Utf8.encode s)
  | okay => .ok (Utf8.encode "OK")
  | array items | set items => items.mapM readByte
  | map entries => readSingles readByte entries
  | nothing => .ok []
  | a => .error (.unlike "Response type not vector compatible." a)

/-- An answer that may be missing. -/
def readOptional {α : Type} (read : Reading α) : Reading (Option α)
  | nothing => .ok none
  | a => (read a).map some

/-- A sequence; one scalar counts as a sequence of itself, and a missing answer as an empty one. -/
def readList {α : Type} (read : Reading α) : Reading (List α)
  | array items | set items => items.mapM read
  | nothing => .ok []
  | map entries => readSingles read entries
  | a => (read a).map fun x => [x]

/-- Every answer will do. -/
def readAny : Reading Unit := fun _ => .ok ()

/-- The pairs of a list that holds names and contents in turn. -/
def pairUp : List Answer → Option (List (Answer × Answer))
  | [] => some []
  | k :: v :: rest => (pairUp rest).map ((k, v) :: ·)
  | [_] => none

def asPair? : Answer → Option (Answer × Answer)
  | array [k, v] => some (k, v)
  | _ => none

def entries? : Answer → Option (List (Answer × Answer))
  | map entries => some entries
  | nothing => some []
  | array items => (items.mapM asPair?).or (pairUp items)
  | _ => none

/-- The fields of a hash, sorted by name; of two fields with one name the later counts. -/
def readFields : Reading (List (String × Bytes)) := fun a =>
  match entries? a with
  | none => .error (.unlike "Response type not hashmap compatible" a)
  | some entries => do
    let fields ← entries.mapM fun e => do
      let name ← readText e.1
      let content ← readBytes e.2
      return (name, content)
    return fields.foldl (fun sorted f => Document.insertEntry f.1 f.2 sorted) []

end Answer
end Remote
end CacheFacade
