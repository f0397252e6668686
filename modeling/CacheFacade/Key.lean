import CacheFacade.Text.Quoted

/-!
Keys of one cache: the caller's key behind the name of the cache, and the keys of lock replicas. The
name may itself hold the separator.
-/

namespace CacheFacade

structure KeySpace where
  name : String
deriving Repr, DecidableEq

namespace KeySpace

def separator : Char := ':'

def qualify (s : KeySpace) (key : String) : String := s.name ++ separator.toString ++ key

def qualifyAll (s : KeySpace) (keys : List String) : List String := keys.map s.qualify

/-- The key of one replica of a lock. -/
def replicaKey (s : KeySpace) (key : String) (replica : Nat) : String :=
  s.name ++ ":lock:" ++ toString replica ++ ":" ++ key

/-- What is left of a text after a given beginning. -/
def dropBeginning : List Char → List Char → Option (List Char)
  | [], cs => some cs
  | _ :: _, [] => none
  | p :: ps, c :: cs => if p = c then dropBeginning ps cs else none

/-- The caller's key, for a key of this cache. -/
def unqualify? (s : KeySpace) (composite : String) : Option String :=
  (dropBeginning (s.name.toList ++ [separator]) composite.toList).map String.ofList

/-- The form for diagnosis. -/
def describe (s : KeySpace) : String := "KeySpace \x7b name: " ++ Quoted.text s.name ++ " \x7d"

end KeySpace
end CacheFacade
