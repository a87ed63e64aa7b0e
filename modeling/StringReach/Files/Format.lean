import StringReach.Data.Json.Reader
import StringReach.Data.Yaml.Shape

/-!
# Formats of data files
-/

namespace StringReach

/-- A format in which data is written in a file. -/
inductive FileFormat where
  | json
  | yaml
deriving DecidableEq, Repr

namespace FileFormat

/-- The format that an extension names. -/
def ofExtension? (extension : String) : Option FileFormat :=
  if extension = "json" then some json
  else if extension = "yaml" ∨ extension = "yml" then some yaml
  else none

/-- Read the data in a text, of which a shape is expected. -/
def read? (format : FileFormat) (shape : Shape) (text : String) : Option Data :=
  match format with
  | json => Json.read? text
  | yaml => do
      let document ← Yaml.Document.read? text
      document.data? shape

end FileFormat

end StringReach
