import Std.Data.ExtTreeSet

/-!
# Program points

A point names a statement of a method, or one operand of it. Points are ordered by method, then by
statement, then by operand, with the statement itself before its operands.
-/

namespace StringReach

/-- A statement of a method or an operand slot of it. -/
structure Point where
  method : String
  statement : Nat
  slot : Option String := none
deriving DecidableEq, Repr, Inhabited

namespace Point

instance : Ord Point where
  compare := compareLex (compareOn method) (compareLex (compareOn statement) (compareOn slot))

instance : Std.TransOrd Point :=
  inferInstanceAs (Std.TransCmp
    (compareLex (compareOn method) (compareLex (compareOn statement) (compareOn slot))))

instance : Std.LawfulEqOrd Point where
  compare_self := Std.ReflCmp.compare_self
  eq_of_compare {a b} h := by
    change compareLex (compareOn method) (compareLex (compareOn statement) (compareOn slot)) a b
      = .eq at h
    simp only [compareLex_eq_eq, compareOn, Std.compare_eq_iff_eq] at h
    cases a
    cases b
    simp_all

/-- The operand slot of the class name of a reflective call. -/
def classSlot : String := "class"

/-- The operand slot of the member name of a reflective call. -/
def memberSlot : String := "member"

/-- An operand of the statement of a point. -/
def operand (point : Point) (slot : String) : Point :=
  { point with slot := some slot }

/-- The statement of a point, without its operand. -/
def site (point : Point) : Point :=
  { point with slot := none }

/-- The text of a point. -/
def text (point : Point) : String :=
  let statement := point.method ++ "@" ++ point.statement.repr
  match point.slot with
  | some slot => statement ++ "." ++ slot
  | none => statement

end Point

end StringReach
