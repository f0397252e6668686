import CacheFacade.Numeral.Integer

/-!
Untyped documents: the values of a self-describing text format. A document as it was read keeps its
object entries in input order, with repeated names; `normalize` sorts them by name and lets the last
entry of a name win, which is how a document is held as a value.
-/

namespace CacheFacade

inductive Document where
  | null
  | bool (b : Bool)
  | int (n : Int)
  | float (bits : UInt64)
  | text (s : String)
  | array (items : List Document)
  | object (entries : List (String × Document))
deriving Repr, Inhabited

namespace Document

/-- Adds an entry at its place among entries sorted by name, instead of one of the same name. -/
def insertEntry {α : Type} (name : String) (value : α) : List (String × α) → List (String × α)
  | [] => [(name, value)]
  | (k, v) :: rest =>
    match compare name k with
    | .lt => (name, value) :: (k, v) :: rest
    | .eq => (name, value) :: rest
    | .gt => (k, v) :: insertEntry name value rest

def sortEntries {α : Type} (entries : List (String × α)) : List (String × α) :=
  entries.foldl (fun acc e => insertEntry e.1 e.2 acc) []

mutual

def normalize : Document → Document
  | .array items => .array (normalizeItems items)
  | .object entries => .object (sortEntries (normalizeEntries entries))
  | .null => .null
  | .bool b => .bool b
  | .int n => .int n
  | .float bits => .float bits
  | .text s => .text s

def normalizeItems : List Document → List Document
  | [] => []
  | d :: ds => normalize d :: normalizeItems ds

def normalizeEntries : List (String × Document) → List (String × Document)
  | [] => []
  | (k, d) :: rest => (k, normalize d) :: normalizeEntries rest

end

end Document
end CacheFacade
