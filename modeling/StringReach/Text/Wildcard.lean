/-!
# The wildcard

The marker `(.*)` stands in a string for a part that is not known. A string is read as the pieces
of literal text between its markers, found from the left and without overlap.
-/

namespace StringReach.Wildcard

/-- The marker for an unknown part of a string. -/
def marker : String := "(.*)"

/-- The literal pieces between the markers. There is one piece more than there are markers. -/
def pieces : List Char → List (List Char)
  | [] => [[]]
  | '(' :: '.' :: '*' :: ')' :: rest => [] :: pieces rest
  | c :: rest =>
      match pieces rest with
      | [] => [[c]]
      | first :: others => (c :: first) :: others

/-- Whether a string has an unknown part. -/
def occursIn (text : String) : Bool :=
  (pieces text.toList).length > 1

/-- Whether a string has no literal text at all. -/
def isUnconstrained (text : String) : Bool :=
  (pieces text.toList).all List.isEmpty

end StringReach.Wildcard
