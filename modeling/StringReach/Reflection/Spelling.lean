/-!
# Spellings of class and member names

A class may be spelt with slashes for dots, and wrapped as `L`…`;`. Names are compared in the plain
spelling: dots, and no wrapping.
-/

namespace StringReach.Spelling

/-- The characters of a name, with dots for slashes. -/
def dotted (name : String) : List Char :=
  name.toList.map fun c => if c = '/' then '.' else c

/-- Text without the semicolon at its end, if there is one. -/
def dropSemicolon (text : List Char) : List Char :=
  if text.getLast? = some ';' then text.dropLast else text

/-- The plain spelling of a class name. The wrapping is removed when both of its ends are there. -/
def plainClass (name : String) : String :=
  match dotted name with
  | 'L' :: inner =>
      if inner.getLast? = some ';' then String.ofList inner.dropLast
      else String.ofList ('L' :: inner)
  | other => String.ofList other

/-- The plain spelling of a name that may have text after its wrapped class. The `L` is removed when
there is a semicolon anywhere, and the semicolon when it comes last. -/
def plainName (name : String) : String :=
  match dotted name with
  | 'L' :: inner =>
      if inner.contains ';' then String.ofList (dropSemicolon inner)
      else String.ofList ('L' :: inner)
  | other => String.ofList other

end StringReach.Spelling
