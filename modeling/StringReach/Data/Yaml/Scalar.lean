import StringReach.Data.Yaml.Plain
import StringReach.Data.Yaml.Property

/-!
# YAML scalars

What value a scalar has depends on how it is written, on its tag, and on what is expected in its
place. A text takes it as it is written; a truth value or a number takes it if it is plain; where
nothing is expected, its tag and its look decide.
-/

namespace StringReach.Yaml

/-- How a scalar is written. -/
inductive Style where
  | plain
  | quoted
  | literal
  | folded
deriving DecidableEq, Repr

/-- A scalar. -/
structure Scalar where
  text : String
  style : Style := .plain
  tag : Option Tag := none

namespace Scalar

/-- A scalar that is left out. -/
def absent : Scalar := { text := "" }

/-- Whether nothing stands in the place of a scalar, apart from a tag. -/
def isAbsent (scalar : Scalar) : Bool :=
  scalar.style = .plain && scalar.text = ""

/-- Whether a scalar may be a value of a shared tag: a plain one may, and a literal one that has
the tag. -/
def mayBe (scalar : Scalar) (name : String) : Bool :=
  scalar.style = .plain || (scalar.style = .literal && scalar.tag = some (Tag.shared name))

/-- A scalar in the place of a text. -/
def asText (scalar : Scalar) : Option Data :=
  some (.text scalar.text)

/-- A scalar in the place of a truth value. -/
def asBool (scalar : Scalar) : Option Data :=
  if scalar.mayBe "bool" then (Plain.bool? scalar.text).map .bool else none

/-- A scalar in the place of a whole number. -/
def asNat (scalar : Scalar) : Option Data :=
  if scalar.mayBe "int" then (Plain.nat? scalar.text).map .nat else none

/-- A scalar in the place of a value that may be absent. Only a plain one can be null: one without a
tag, or a word for null with the tag for it. -/
def asNullable (value? : Scalar → Option Data) (scalar : Scalar) : Option Data :=
  if scalar.style ≠ .plain then value? scalar
  else match scalar.tag with
    | none => if Plain.isNull scalar.text then some .null else value? scalar
    | some tag =>
        if tag = Tag.shared "null" then
          if Plain.isNullWord scalar.text then some .null else none
        else value? scalar

/-- The value of a scalar by its look, if it is plain. -/
def untagged (scalar : Scalar) : Data :=
  if scalar.style = .plain then Plain.value scalar.text else .text scalar.text

/-- The value of a scalar where nothing is expected. -/
def value? (scalar : Scalar) : Option Data :=
  match scalar.tag with
  | none => some scalar.untagged
  | some tag =>
      if tag.isLocal then none
      else if tag = Tag.shared "bool" then (Plain.bool? scalar.text).map .bool
      else if tag = Tag.shared "int" then Plain.whole? scalar.text
      else if tag = Tag.shared "float" then
        if Plain.isFloat scalar.text then some .number else none
      else if tag = Tag.shared "null" then
        if Plain.isNullWord scalar.text then some .null else none
      else if tag.isMarked then some scalar.untagged
      else some (.text scalar.text)

end Scalar

end StringReach.Yaml
