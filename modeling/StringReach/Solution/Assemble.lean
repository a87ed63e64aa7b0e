import StringReach.Term.Basic
import StringReach.Solution.Basic

/-!
# The solution of a term from those of its children

Every solver puts solutions together in the same way and differs only in how it walks the graph.
-/

namespace StringReach.Term

/-- The solution of a term, given those of its children in order. An unknown value has no string, a
value from elsewhere may be any string, and so may a box without content, with a warning. -/
def assemble : Term → List Solution → Solution
  | top, _ => .warning
  | pending, _ => .cut
  | terminal value, _ => .literal value
  | union _, parts => .mergeAll parts
  | concat _ _, [left, right] => left.concat right
  | eq _, [inner] => inner
  | _, _ => .wildcard

end StringReach.Term
