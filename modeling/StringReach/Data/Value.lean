import StringReach.Data.Digits

/-!
# Data

Programs, settings and reports are exchanged as data: scalars, lists and records, whatever the text
they were read from.
-/

namespace StringReach

/-- A value read from a text or to be written to one. -/
inductive Data where
  | null
  | bool (value : Bool)
  /-- A whole number that fits 64 bits. -/
  | nat (value : Nat)
  /-- Any other number; nothing that is read has such a value. -/
  | number
  | text (value : String)
  | list (items : List Data)
  /-- Values by their keys, in order. A key is a text as a rule, and it may occur again. -/
  | record (entries : List (Data × Data))
  /-- A part that is in place but has no value: a number out of range, an unpaired surrogate or too
  deep a nesting. It may be skipped and not be read. -/
  | unreadable
deriving Repr, Inhabited

namespace Data

/-- A record of named values. -/
def named (fields : List (String × Data)) : Data :=
  record (fields.map fun (name, item) => (text name, item))

mutual

/-- Whether every part has a value. -/
def isReadable : Data → Bool
  | list items => areReadable items
  | record entries => haveReadable entries
  | unreadable => false
  | _ => true

/-- Whether every part of all items has a value. -/
def areReadable : List Data → Bool
  | [] => true
  | item :: rest => isReadable item && areReadable rest

/-- Whether every part of all keys and values has a value. -/
def haveReadable : List (Data × Data) → Bool
  | [] => true
  | (key, item) :: rest => isReadable key && isReadable item && haveReadable rest

end

/-- The text of a scalar. -/
def text? : Data → Option String
  | text value => some value
  | _ => none

/-- The truth value of a scalar. -/
def bool? : Data → Option Bool
  | bool value => some value
  | _ => none

/-- The whole number of a scalar. -/
def nat? : Data → Option Nat
  | nat value => some value
  | _ => none

/-- The items of a list. -/
def list? : Data → Option (List Data)
  | list items => some items
  | _ => none

/-- A list of values of one shape. -/
def listOf? {α : Type} (item? : Data → Option α) (data : Data) : Option (List α) := do
  let items ← data.list?
  items.mapM item?

/-- A value that may be absent. -/
def nullable? {α : Type} (value? : Data → Option α) (data : Data) : Option (Option α) :=
  match data with
  | null => some none
  | _ => (value? data).map some

/-- The data of a value that may be absent. -/
def ofOption {α : Type} (toData : α → Data) : Option α → Data
  | some value => toData value
  | none => null

end Data

end StringReach
