import CacheFacade.Bytes
import CacheFacade.Schema.Document

/-!
Values of the described types, and the order in which a map keeps its keys.
-/

namespace CacheFacade

/-- What a format offered to a probe: one of its own shapes, with documents inside. -/
inductive Sighting where
  | bool (b : Bool)
  | int (n : Int)
  | float (bits : UInt64)
  | char (c : Char)
  | text (s : String)
  | bytes (bs : Bytes)
  | none
  | unit
  | some (inner : Sighting)
  | wrapper (inner : Sighting)
  | list (items : List Document)
  | map (entries : List (Document × Document))
deriving Inhabited

namespace Sighting

def ofDocument : Document → Sighting
  | .null => .unit
  | .bool b => .bool b
  | .int n => .int n
  | .float bits => .float bits
  | .text s => .text s
  | .array items => .list (items.map Document.normalize)
  | .object entries => .map (entries.map fun e => (.text e.1, e.2.normalize))

end Sighting

inductive Val where
  | bool (b : Bool)
  | int (n : Int)
  | f32 (bits : UInt32)
  | f64 (bits : UInt64)
  | char (c : Char)
  | text (s : String)
  | bytes (bs : Bytes)
  | unit
  | none
  | some (v : Val)
  | list (vs : List Val)
  | map (entries : List (Val × Val))
  /-- A variant by its index, with its content. -/
  | variant (index : Nat) (content : Val)
  | document (d : Document)
  | sighting (s : Sighting)
deriving Inhabited

namespace Val

def rank : Val → Nat
  | bool _ => 0
  | int _ => 1
  | f32 _ => 2
  | f64 _ => 3
  | char _ => 4
  | text _ => 5
  | bytes _ => 6
  | unit => 7
  | none => 8
  | some _ => 9
  | list _ => 10
  | map _ => 11
  | variant _ _ => 12
  | document _ => 13
  | sighting _ => 14

mutual

/-- The order of keys: integers by size, floating numbers by their bits, texts by their characters,
byte strings, sequences, maps and variants by their first difference, an absent value before any
present one. -/
def order : Val → Val → Ordering
  | .bool a, .bool b => compare a b
  | .int a, .int b => compare a b
  | .f32 a, .f32 b => compare a b
  | .f64 a, .f64 b => compare a b
  | .char a, .char b => compare a b
  | .text a, .text b => compare a b
  | .bytes a, .bytes b => compare a b
  | .some a, .some b => order a b
  | .list as, .list bs => orderList as bs
  | .map as, .map bs => orderEntries as bs
  | .variant i a, .variant j b => (compare i j).then (order a b)
  | a, b => compare a.rank b.rank

def orderList : List Val → List Val → Ordering
  | [], [] => .eq
  | [], _ :: _ => .lt
  | _ :: _, [] => .gt
  | a :: as, b :: bs => (order a b).then (orderList as bs)

def orderEntries : List (Val × Val) → List (Val × Val) → Ordering
  | [], [] => .eq
  | [], _ :: _ => .lt
  | _ :: _, [] => .gt
  | (k, a) :: as, (l, b) :: bs => (order k l).then ((order a b).then (orderEntries as bs))

end

/-- Adds an entry at its place among entries sorted by key, instead of one of the same key. -/
def insertEntry (key value : Val) : List (Val × Val) → List (Val × Val)
  | [] => [(key, value)]
  | (k, v) :: rest =>
    match order key k with
    | .lt => (key, value) :: (k, v) :: rest
    | .eq => (key, value) :: rest
    | .gt => (k, v) :: insertEntry key value rest

def sortEntries (entries : List (Val × Val)) : List (Val × Val) :=
  entries.foldl (fun acc e => insertEntry e.1 e.2 acc) []

end Val
end CacheFacade
