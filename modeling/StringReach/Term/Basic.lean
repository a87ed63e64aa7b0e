/-!
# Constraint terms

A term describes the strings that a program value may hold. Terms live in numbered boxes and name
each other by handle, so a graph of terms may share boxes and run in cycles.
-/

namespace StringReach

/-- The number of a box. -/
abbrev Handle := Nat

/-- The text of a handle. -/
def Handle.text (h : Handle) : String :=
  "#" ++ h.repr

/-- What a box may hold. -/
inductive Term where
  /-- A value about which nothing is known and no string can be said. -/
  | top
  /-- A value that no statement produced. -/
  | bottom
  /-- A string constant. -/
  | terminal (value : String)
  /-- A value supplied by the caller. -/
  | parameter
  /-- Any of the values of the listed boxes. -/
  | union (items : List Handle)
  /-- A value of the left box followed by one of the right box. -/
  | concat (left right : Handle)
  /-- The values of another box. -/
  | eq (inner : Handle)
  /-- A box whose content is to be supplied later. -/
  | pending
  /-- The value returned by a method that is not looked into. -/
  | call (callee : String)
deriving DecidableEq, Repr, Inhabited

namespace Term

/-- The name of the kind of a term. -/
def kindName : Term → String
  | top => "Top"
  | bottom => "Bottom"
  | terminal _ => "Terminal"
  | parameter => "Parameter"
  | union _ => "Union"
  | concat _ _ => "Concatenate"
  | eq _ => "Eq"
  | pending => "Pending"
  | call _ => "Call"

/-- The boxes that a term is made of, in the order in which they are read. -/
def children : Term → List Handle
  | union items => items
  | concat left right => [left, right]
  | eq inner => [inner]
  | _ => []

/-- A compound term is made of other boxes; an empty union is one too. -/
def isCompound : Term → Bool
  | union _ => true
  | concat _ _ => true
  | eq _ => true
  | _ => false

/-- Only a compound term has children. -/
theorem children_eq_nil_of_not_compound {term : Term} (h : term.isCompound = false) :
    term.children = [] := by
  cases term <;> simp_all [isCompound, children]

end Term

end StringReach
