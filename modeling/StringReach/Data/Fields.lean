import StringReach.Data.Value

/-!
# Fields of structured data

A structured value is given as a record, in which unknown names are skipped and a known name occurs
once, or as a list of its fields in order, of which the last ones may be missing. One of several
shapes is chosen by a tag: a field of the record, or the first item of the list.
-/

namespace StringReach

/-- The known fields of a structured value. -/
structure FieldValues where
  values : List (String × Data)
  /-- Whether the fields were given in order and without names. -/
  positional : Bool

namespace FieldValues

/-- The value of a field. -/
def get? (fields : FieldValues) (name : String) : Option Data :=
  fields.values.lookup name

variable {α : Type}

/-- A field that has to be there. -/
def required (fields : FieldValues) (name : String) (value? : Data → Option α) : Option α := do
  let data ← fields.get? name
  value? data

/-- A field that may be missing, with the value it then has. -/
def defaulted (fields : FieldValues) (name : String) (value? : Data → Option α) (default : α) :
    Option α :=
  match fields.get? name with
  | some data => value? data
  | none => some default

/-- A field that may be null, and may be missing from a record but not from a list. -/
def optional (fields : FieldValues) (name : String) (value? : Data → Option α) :
    Option (Option α) :=
  match fields.get? name with
  | some data => data.nullable? value?
  | none => if fields.positional then none else some none

end FieldValues

namespace Data

/-- The field that a key means, as its name: a text is a name, and a number counts the fields. An
unknown field has any other name. -/
def fieldName? (names : List String) : Data → Option String
  | text name => some name
  | nat index => some (names.getD index "")
  | _ => none

/-- The fields of a structured value with the given field names. -/
def fields? (names : List String) : Data → Option FieldValues
  | record entries => do
      let entries ← entries.mapM fun (key, item) => (key.fieldName? names).map (·, item)
      let known := entries.filter fun entry => names.contains entry.1
      if (known.map (·.1)).Nodup then some { values := known, positional := false } else none
  | list items =>
      if items.length ≤ names.length then
        some { values := names.zip items, positional := true }
      else none
  | _ => none

/-- Whether a key is a name. -/
def isName (name : String) (key : Data) : Bool :=
  key.text? = some name

/-- The tag of a tagged value, and the value without it. -/
def tagged? (tagName : String) : Data → Option (String × Data)
  | record entries =>
      match entries.filter fun entry => entry.1.isName tagName with
      | [(_, text tag)] => some (tag, record (entries.filter fun entry => !entry.1.isName tagName))
      | _ => none
  | list (text tag :: items) => some (tag, list items)
  | _ => none

/-- The name of a choice without content: a text, or a record whose one entry has no value. -/
def choice? : Data → Option String
  | text name => some name
  | record [(text name, null)] => some name
  | _ => none

end Data

end StringReach
