import StringReach.Term.Arena
import Std.Data.ExtTreeMap

/-!
# Fields

A field of the analysed program is one box for the whole program, whatever the order of the loads
and stores that mention it. The first load makes an empty box, the first store fills it, and later
stores add alternatives.
-/

namespace StringReach

/-- The box of each field met so far, in the order of the names. -/
structure Fields where
  boxes : Std.ExtTreeMap String Handle := ∅

namespace Fields

/-- The store that has met no field. -/
def empty : Fields := {}

/-- The box of a field. -/
def find? (fields : Fields) (name : String) : Option Handle :=
  fields.boxes[name]?

/-- Fields with their boxes, sorted by name. -/
def toList (fields : Fields) : List (String × Handle) :=
  fields.boxes.toList

/-- The number of fields met so far. -/
def size (fields : Fields) : Nat :=
  fields.boxes.size

/-- The box of a field, made empty on the first mention. -/
def load (fields : Fields) (arena : Arena) (name : String) : Handle × Fields × Arena :=
  match fields.find? name with
  | some box => (box, fields, arena)
  | none =>
      let (box, arena) := arena.alloc .pending
      (box, { boxes := fields.boxes.insert name box }, arena)

/-- Record that a field may hold the values of a box, and return the box of the field. The value of
a field met for the first time is taken as it is. -/
def store (fields : Fields) (arena : Arena) (name : String) (value : Handle) :
    Except Violation (Handle × Fields × Arena) :=
  match fields.find? name with
  | none =>
      let (box, arena) := arena.alloc (.eq value)
      .ok (box, { boxes := fields.boxes.insert name box }, arena)
  | some box => do
      match ← arena.get box with
      | .pending =>
          let arena ← arena.refineEq box value
          pure (box, fields, arena)
      | _ =>
          let arena ← arena.growUnion box value
          pure (box, fields, arena)

/-- A store to a field that was not met before makes a box for it. -/
theorem store_new {fields : Fields} {name : String} (hfind : fields.find? name = none)
    (arena : Arena) (value : Handle) :
    fields.store arena name value = .ok (arena.size,
      { boxes := fields.boxes.insert name arena.size }, (arena.alloc (.eq value)).2) := by
  simp only [store, hfind]
  rfl

/-- The first store fills the box that the first load has made. -/
theorem store_pending {fields : Fields} {arena : Arena} {name : String} {box value : Handle}
    {term : Term} (hfind : fields.find? name = some box) (hbox : arena.get? box = some .pending)
    (hvalue : arena.get? value = some term) :
    fields.store arena name value = .ok (box, fields, arena.set box (.eq value)) := by
  simp only [store, hfind]
  rw [Arena.get_eq_ok hbox]
  show (arena.refineEq box value >>= _) = _
  rw [Arena.refine_eq_pending hvalue hbox]
  rfl

/-- A store to a field that has a value adds an alternative to it. -/
theorem store_grow {fields : Fields} {arena arena' : Arena} {name : String} {box value : Handle}
    {term : Term} (hfind : fields.find? name = some box) (hbox : arena.get? box = some term)
    (hterm : term ≠ .pending) (hgrow : arena.growUnion box value = .ok arena') :
    fields.store arena name value = .ok (box, fields, arena') := by
  simp only [store, hfind]
  rw [Arena.get_eq_ok hbox]
  cases term with
  | pending => exact absurd rfl hterm
  | top | bottom | terminal _ | parameter | union _ | concat _ _ | eq _ | call _ =>
      show (arena.growUnion box value >>= _) = _
      rw [hgrow]
      rfl

end Fields

end StringReach
