/-!
Taking a text apart at a mark.
-/

namespace CacheFacade
namespace Split

/-- The parts between the occurrences of a character; there is one part more than occurrences. -/
def every (sep : Char) : List Char → List (List Char)
  | [] => [[]]
  | c :: cs =>
    match every sep cs with
    | [] => [[c]]
    | g :: gs => if c == sep then [] :: g :: gs else (c :: g) :: gs

/-- The parts before and after the first occurrence of a mark. -/
def first? (mark : List Char) : List Char → Option (List Char × List Char)
  | [] => if mark.isEmpty then some ([], []) else none
  | c :: cs =>
    if mark.isPrefixOf (c :: cs) then some ([], (c :: cs).drop mark.length)
    else (first? mark cs).map fun p => (c :: p.1, p.2)

/-- Whether a text holds a mark. -/
def holds (mark text : String) : Bool := (first? mark.toList text.toList).isSome

end Split
end CacheFacade
