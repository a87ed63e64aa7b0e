/-!
# Shapes of data

A shape says what is expected in each place of a text. A format in which the look of a scalar does
not tell its type is read by the shape of what is to be read.
-/

namespace StringReach

/-- What is expected of a part of a text. -/
inductive Shape where
  | text
  | bool
  | nat
  /-- A whole number that may be absent. -/
  | nullableNat
  | list (item : Shape)
  /-- A record with fields of some names. -/
  | fields (fields : List (String × Shape))
  /-- A record or list of anything, with a text under the given name or in the first place. -/
  | tagged (tagName : String)

end StringReach
