/-!
# Paths

The extension in the name of a file.
-/

namespace StringReach.Path

/-- The name at the end of a path. Slashes at the end and steps that stay in a directory count for
nothing; a path that ends with a step up has no name at its end. -/
def name? (path : String) : Option String :=
  let parts := (path.splitOn "/").filter fun part => part ≠ "" ∧ part ≠ "."
  parts.getLast?.filter (· ≠ "..")

/-- The part of a name after its last dot, unless the name starts with that dot. -/
def nameExtension? (name : String) : Option String :=
  let reversed := name.toList.reverse
  match reversed.dropWhile (· ≠ '.') with
  | '.' :: _ :: _ => some (String.ofList (reversed.takeWhile (· ≠ '.')).reverse)
  | _ => none

/-- The extension of the name at the end of a path. -/
def extension? (path : String) : Option String :=
  (name? path).bind nameExtension?

end StringReach.Path
