import StringReach.Data.Fields
import StringReach.Data.Shape
import StringReach.Program.Basic
import StringReach.Program.CallGraph

/-!
# Programs as data

Each part of a program is written as a record of all of its fields, with null for an absent one.
Reading gives back what was written, and accepts absent fields where they have a default.
-/

namespace StringReach

/-- A list of texts as data. -/
def Data.texts (items : List String) : Data :=
  .list (items.map .text)

namespace ReflectionKind

/-- A kind as data. -/
def toData (kind : ReflectionKind) : Data :=
  .text kind.name

/-- Read a kind. -/
def ofData? (data : Data) : Option ReflectionKind := do
  let name ← data.choice?
  ofName? name

/-- Read the kind of a statement, where an empty record counts as no content too, and the key of a
record may give the kind by its number. -/
def ofOperand? : Data → Option ReflectionKind
  | .record [(.text name, .record [])] => ofName? name
  | .record [(.nat index, .null)] => all[index]?
  | .record [(.nat index, .record [])] => all[index]?
  | data => ofData? data

end ReflectionKind

namespace Point

/-- A point as data. -/
def toData (point : Point) : Data :=
  .named [("method", .text point.method), ("statement", .nat point.statement),
    ("slot", .ofOption .text point.slot)]

/-- Read a point. -/
def ofData? (data : Data) : Option Point := do
  let fields ← data.fields? ["method", "statement", "slot"]
  let method ← fields.required "method" Data.text?
  let statement ← fields.required "statement" Data.nat?
  let slot ← fields.optional "slot" Data.text?
  pure { method, statement, slot }

end Point

namespace Statement

/-- A statement as data, tagged by its operation. -/
def toData : Statement → Data
  | const dest value =>
      .named [("op", .text "const"), ("dest", .text dest), ("value", .text value)]
  | assign dest src => .named [("op", .text "assign"), ("dest", .text dest), ("src", .text src)]
  | concat dest left right =>
      .named [("op", .text "concat"), ("dest", .text dest), ("left", .text left),
        ("right", .text right)]
  | append target value dest =>
      .named [("op", .text "append"), ("target", .text target), ("value", .text value),
        ("dest", .ofOption .text dest)]
  | phi dest sources =>
      .named [("op", .text "phi"), ("dest", .text dest), ("sources", .texts sources)]
  | param dest => .named [("op", .text "param"), ("dest", .text dest)]
  | unknown dest => .named [("op", .text "unknown"), ("dest", .text dest)]
  | storeField field value =>
      .named [("op", .text "store_field"), ("field", .text field), ("value", .text value)]
  | loadField dest field =>
      .named [("op", .text "load_field"), ("dest", .text dest), ("field", .text field)]
  | invoke callee dest args =>
      .named [("op", .text "invoke"), ("callee", .text callee), ("dest", .ofOption .text dest),
        ("args", .texts args)]
  | reflect kind cls member =>
      .named [("op", .text "reflect"), ("kind", kind.toData), ("class", .text cls),
        ("member", .ofOption .text member)]

/-- Read the fields of a statement of the given operation. -/
def ofTagged? (op : String) (data : Data) : Option Statement :=
  match op with
  | "const" => do
      let fields ← data.fields? ["dest", "value"]
      let dest ← fields.required "dest" Data.text?
      let value ← fields.required "value" Data.text?
      pure (const dest value)
  | "assign" => do
      let fields ← data.fields? ["dest", "src"]
      let dest ← fields.required "dest" Data.text?
      let src ← fields.required "src" Data.text?
      pure (assign dest src)
  | "concat" => do
      let fields ← data.fields? ["dest", "left", "right"]
      let dest ← fields.required "dest" Data.text?
      let left ← fields.required "left" Data.text?
      let right ← fields.required "right" Data.text?
      pure (concat dest left right)
  | "append" => do
      let fields ← data.fields? ["target", "value", "dest"]
      let target ← fields.required "target" Data.text?
      let value ← fields.required "value" Data.text?
      let dest ← fields.defaulted "dest" (Data.nullable? Data.text?) none
      pure (append target value dest)
  | "phi" => do
      let fields ← data.fields? ["dest", "sources"]
      let dest ← fields.required "dest" Data.text?
      let sources ← fields.required "sources" (Data.listOf? Data.text?)
      pure (phi dest sources)
  | "param" => do
      let fields ← data.fields? ["dest"]
      let dest ← fields.required "dest" Data.text?
      pure (param dest)
  | "unknown" => do
      let fields ← data.fields? ["dest"]
      let dest ← fields.required "dest" Data.text?
      pure (unknown dest)
  | "store_field" => do
      let fields ← data.fields? ["field", "value"]
      let field ← fields.required "field" Data.text?
      let value ← fields.required "value" Data.text?
      pure (storeField field value)
  | "load_field" => do
      let fields ← data.fields? ["dest", "field"]
      let dest ← fields.required "dest" Data.text?
      let field ← fields.required "field" Data.text?
      pure (loadField dest field)
  | "invoke" => do
      let fields ← data.fields? ["callee", "dest", "args"]
      let callee ← fields.required "callee" Data.text?
      let dest ← fields.defaulted "dest" (Data.nullable? Data.text?) none
      let args ← fields.defaulted "args" (Data.listOf? Data.text?) []
      pure (invoke callee dest args)
  | "reflect" => do
      let fields ← data.fields? ["kind", "class", "member"]
      let kind ← fields.required "kind" ReflectionKind.ofOperand?
      let cls ← fields.required "class" Data.text?
      let member ← fields.defaulted "member" (Data.nullable? Data.text?) none
      pure (reflect kind cls member)
  | _ => none

/-- Read a statement. Every part of it has to have a value, also one that is not known. -/
def ofData? (data : Data) : Option Statement :=
  if data.isReadable then do
    let (op, data) ← data.tagged? "op"
    ofTagged? op data
  else none

end Statement

namespace Method

/-- A method as data. -/
def toData (method : Method) : Data :=
  .named [("name", .text method.name), ("params", .texts method.params),
    ("body", .list (method.body.map Statement.toData))]

/-- Read a method. -/
def ofData? (data : Data) : Option Method := do
  let fields ← data.fields? ["name", "params", "body"]
  let name ← fields.required "name" Data.text?
  let params ← fields.defaulted "params" (Data.listOf? Data.text?) []
  let body ← fields.defaulted "body" (Data.listOf? Statement.ofData?) []
  pure { name, params, body }

/-- The shape of a method. -/
def shape : Shape :=
  .fields [("name", .text), ("params", .list .text), ("body", .list (.tagged "op"))]

end Method

namespace Program

/-- A program as data. -/
def toData (program : Program) : Data :=
  .named [("entry_points", .texts program.entryPoints),
    ("methods", .list (program.methods.map Method.toData))]

/-- Read a program. -/
def ofData? (data : Data) : Option Program := do
  let fields ← data.fields? ["entry_points", "methods"]
  let entryPoints ← fields.defaulted "entry_points" (Data.listOf? Data.text?) []
  let methods ← fields.defaulted "methods" (Data.listOf? Method.ofData?) []
  pure { entryPoints, methods }

/-- The shape of a program. -/
def shape : Shape :=
  .fields [("entry_points", .list .text), ("methods", .list Method.shape)]

end Program

namespace EdgeOrigin

/-- An origin as data, tagged by its type. -/
def toData : EdgeOrigin → Data
  | direct => .named [("type", .text "direct")]
  | reflective site => .named [("type", .text "reflective"), ("site", site.toData)]

/-- Read an origin. A direct one takes no notice of further entries, but allows no further items. -/
def ofData? (data : Data) : Option EdgeOrigin :=
  if data.isReadable then do
    let (type, data) ← data.tagged? "type"
    match type, data with
    | "direct", .record _ => pure direct
    | "direct", .list [] => pure direct
    | "reflective", data => do
        let fields ← data.fields? ["site"]
        let site ← fields.required "site" Point.ofData?
        pure (reflective site)
    | _, _ => none
  else none

end EdgeOrigin

namespace CallEdge

/-- An edge as data. -/
def toData (edge : CallEdge) : Data :=
  .named [("caller", .text edge.caller), ("callee", .text edge.callee),
    ("call_type", edge.origin.toData)]

/-- Read an edge. -/
def ofData? (data : Data) : Option CallEdge := do
  let fields ← data.fields? ["caller", "callee", "call_type"]
  let caller ← fields.required "caller" Data.text?
  let callee ← fields.required "callee" Data.text?
  let origin ← fields.required "call_type" EdgeOrigin.ofData?
  pure { caller, callee, origin }

end CallEdge

end StringReach
