import StringReach.Error

/-!
# Boxes

An arena is a sequence of boxes. New boxes get the next free handle; the content of a box changes
only by `growUnion`, which adds an alternative to it, and by `refineEq`, which fills a box that has
none.
-/

namespace StringReach

/-- A sequence of boxes, numbered from zero. -/
structure Arena where
  slots : Array Term := #[]
deriving DecidableEq, Repr, Inhabited

namespace Arena

/-- The arena without boxes. -/
def empty : Arena := {}

/-- The number of boxes. -/
def size (arena : Arena) : Nat :=
  arena.slots.size

/-- The content of a box. -/
def get? (arena : Arena) (h : Handle) : Option Term :=
  arena.slots[h]?

/-- The content of a box that has to exist. -/
def get (arena : Arena) (h : Handle) : Except Violation Term :=
  match arena.get? h with
  | some term => .ok term
  | none => .error (.danglingBox h)

/-- A box with content is found. -/
theorem get_eq_ok {arena : Arena} {h : Handle} {term : Term} (hget : arena.get? h = some term) :
    arena.get h = .ok term := by
  rw [get, hget]

/-- A handle with content is smaller than the number of boxes. -/
theorem lt_size_of_get? {arena : Arena} {h : Handle} {term : Term}
    (hget : arena.get? h = some term) : h < arena.size := by
  rw [get?, Array.getElem?_eq_some_iff] at hget
  exact hget.1

/-- Put a term into a new box. -/
def alloc (arena : Arena) (term : Term) : Handle × Arena :=
  (arena.size, { slots := arena.slots.push term })

/-- A new box is one box more. -/
@[simp] theorem size_alloc (arena : Arena) (term : Term) :
    (arena.alloc term).2.size = arena.size + 1 :=
  Array.size_push _

/-- A new box gets the next free handle and leaves the others alone. -/
theorem get?_alloc (arena : Arena) (term : Term) (h : Handle) :
    (arena.alloc term).2.get? h = if h = arena.size then some term else arena.get? h :=
  Array.getElem?_push

/-- Replace the content of a box; a handle without a box is left alone. -/
def set (arena : Arena) (h : Handle) (term : Term) : Arena :=
  { slots := arena.slots.setIfInBounds h term }

/-- Replacing a content makes no new box. -/
@[simp] theorem size_set (arena : Arena) (h : Handle) (term : Term) :
    (arena.set h term).size = arena.size :=
  Array.size_setIfInBounds

/-- The replaced box has the new content. -/
theorem get?_set_self {arena : Arena} {h : Handle} (hbox : h < arena.size) (term : Term) :
    (arena.set h term).get? h = some term :=
  Array.getElem?_setIfInBounds_self_of_lt hbox

/-- Other boxes keep their content. -/
theorem get?_set_of_ne (arena : Arena) {h other : Handle} (hne : h ≠ other) (term : Term) :
    (arena.set h term).get? other = arena.get? other :=
  Array.getElem?_setIfInBounds_ne hne

/-- Add an alternative to a box. A union takes it at its end unless it is listed already. Any other
content moves to a new box, and the box becomes the union of the two. -/
def growUnion (arena : Arena) (target alternative : Handle) : Except Violation Arena := do
  let _ ← arena.get alternative
  match ← arena.get target with
  | .union items =>
      if items.contains alternative then
        pure arena
      else
        pure (arena.set target (.union (items ++ [alternative])))
  | old =>
      let (moved, arena) := arena.alloc old
      pure (arena.set target (.union [moved, alternative]))

/-- A union takes an alternative at its end, unless it is listed already. -/
theorem grow_union_union {arena : Arena} {target alternative : Handle} {items : List Handle}
    {term : Term} (halternative : arena.get? alternative = some term)
    (htarget : arena.get? target = some (.union items)) :
    arena.growUnion target alternative =
      .ok (if items.contains alternative then arena
        else arena.set target (.union (items ++ [alternative]))) := by
  rw [growUnion, get_eq_ok halternative, get_eq_ok htarget]
  show (if items.contains alternative then (pure arena : Except Violation Arena) else pure _) = _
  split <;> rfl

/-- Content other than a union moves to a new box when an alternative is added. -/
theorem grow_union_of_ne_union {arena : Arena} {target alternative : Handle} {old term : Term}
    (halternative : arena.get? alternative = some term) (htarget : arena.get? target = some old)
    (hold : ∀ items, old ≠ .union items) :
    arena.growUnion target alternative =
      .ok ((arena.alloc old).2.set target (.union [arena.size, alternative])) := by
  rw [growUnion, get_eq_ok halternative, get_eq_ok htarget]
  cases old with
  | union items => exact absurd rfl (hold items)
  | top | bottom | terminal _ | parameter | concat _ _ | eq _ | pending | call _ => rfl

/-- Fill a box that has no content yet with the values of another box. -/
def refineEq (arena : Arena) (target inner : Handle) : Except Violation Arena := do
  let _ ← arena.get inner
  match ← arena.get target with
  | .pending => pure (arena.set target (.eq inner))
  | .bottom => pure (arena.set target (.eq inner))
  | found => .error (.illegalMutation target found)

/-- An empty box is filled. -/
theorem refine_eq_pending {arena : Arena} {target inner : Handle} {term : Term}
    (hinner : arena.get? inner = some term) (htarget : arena.get? target = some .pending) :
    arena.refineEq target inner = .ok (arena.set target (.eq inner)) := by
  rw [refineEq, get_eq_ok hinner, get_eq_ok htarget]
  rfl

end Arena

end StringReach
