import StringReach.Data.Shape
import StringReach.Data.Yaml.Document

/-!
# YAML by shape

The data of a document depends on what is expected in each place. Parts for which no shape is given
are skipped, and aliases in them are not followed. Where anything is expected, a key need not be a
text.
-/

namespace StringReach.Yaml

/-- A computation that may follow only so many aliases. -/
abbrev Reading := StateT Nat Option

/-- The value of a scalar in a place of a shape. Nothing at all is an empty list or record. -/
def Scalar.shaped? (scalar : Scalar) : Shape → Option Data
  | .text => scalar.asText
  | .bool => scalar.asBool
  | .nat => scalar.asNat
  | .nullableNat => scalar.asNullable Scalar.asNat
  | .list _ => if scalar.isAbsent then some (.list []) else none
  | .fields _ => if scalar.isAbsent then some (.record []) else none
  | .tagged _ => none

namespace Document

variable (document : Document)

/-- The node that an alias refers to; any other node is its own. -/
def follow : NumberedNode → Reading NumberedNode
  | .reference target => do
      let allowance ← get
      if allowance = 0 then failure
      set (allowance - 1)
      document.targets.lookup target
  | node => pure node

/-- The text of a scalar. -/
def textOf (node : NumberedNode) : Reading String := do
  match ← document.follow node with
  | .scalar _ scalar => pure scalar.text
  | _ => failure

/-- The data of a list or record that is expected to be anything. A local tag has no meaning. -/
def ofAny (tag : Option Tag) (data : Reading Data) : Reading Data :=
  if tag.any Tag.isLocal then failure else data

/-- The data of a node where anything is expected, with room for `depth` lists and records inside of
each other. -/
def anything (depth : Nat) (node : NumberedNode) : Reading Data := do
  match depth, ← document.follow node with
  | _, .scalar _ scalar => scalar.value?
  | depth + 1, .list _ tag items => ofAny tag do
      let items ← items.mapM (anything depth)
      pure (.list items)
  | depth + 1, .record _ tag entries => ofAny tag do
      let entries ← entries.mapM fun (key, item) => do
        let key ← anything depth key
        let item ← anything depth item
        pure (key, item)
      pure (.record entries)
  | _, _ => failure

/-- The data of a node where a tagged value is expected. -/
def taggedData (tagName : String) (depth : Nat) (node : NumberedNode) : Reading Data := do
  match depth, node with
  | depth + 1, .list _ tag (first :: items) => ofAny tag do
      let first ← document.textOf first
      let items ← items.mapM (document.anything depth)
      pure (.list (.text first :: items))
  | depth + 1, .record _ tag entries => ofAny tag do
      let entries ← entries.mapM fun (key, item) => do
        match ← document.anything depth key with
        | .text name =>
            if name = tagName then do
              let item ← document.textOf item
              pure (.text name, .text item)
            else do
              let item ← document.anything depth item
              pure (.text name, item)
        | key => do
            let item ← document.anything depth item
            pure (key, item)
      pure (.record entries)
  | _, _ => failure

/-- The data of a node of a shape. -/
def shaped (depth : Nat) (shape : Shape) (node : NumberedNode) : Reading Data := do
  match depth, shape, ← document.follow node with
  | _, shape, .scalar _ scalar => scalar.shaped? shape
  | depth + 1, .list item, .list _ _ items => do
      let items ← items.mapM (shaped depth item)
      pure (.list items)
  | depth + 1, .fields fields, .record _ _ entries => do
      let entries ← entries.mapM fun (key, item) => do
        let name ← document.textOf key
        match fields.lookup name with
        | some shape => do
            let item ← shaped depth shape item
            pure (some (.text name, item))
        | none => pure none
      pure (.record (entries.filterMap id))
  | depth, .tagged tagName, node => document.taggedData tagName depth node
  | _, _, _ => failure

/-- The deepest nesting of lists and records that has a value. -/
def maxNesting : Nat := 128

/-- The data of a document of a shape. -/
def data? (shape : Shape) : Option Data :=
  (document.shaped maxNesting shape document.root).run' document.allowance

end Document

end StringReach.Yaml
