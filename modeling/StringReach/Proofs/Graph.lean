import Mathlib.Logic.Relation
import StringReach.Term.Path

/-!
# The graph of boxes

The arrows of the graph go from a compound box to its children. `Reaches` says which boxes lie below
a box, `OnCycle` that a box is met again below itself, and `Intact` that no handle below a box
dangles. A box is `Grounded` when every descent from it ends; this is how the traversals find that
a box is acyclic, and `Grounded.not_on_cycle` says that they are right to do so.
-/

namespace StringReach.Arena

/-- A box is made of its children. -/
def Child (arena : Arena) (h child : Handle) : Prop :=
  ∃ term, arena.get? h = some term ∧ child ∈ term.children

/-- A box lies below another, or is the same box. -/
abbrev Reaches (arena : Arena) : Handle → Handle → Prop :=
  Relation.ReflTransGen arena.Child

/-- A box lies strictly below itself. -/
def OnCycle (arena : Arena) (h : Handle) : Prop :=
  Relation.TransGen arena.Child h h

/-- Some box at or below a box satisfies `P`. -/
def ReachesSome (arena : Arena) (P : Handle → Prop) (root : Handle) : Prop :=
  ∃ h, arena.Reaches root h ∧ P h

/-- No handle at or below a box dangles. -/
def Intact (arena : Arena) (root : Handle) : Prop :=
  ∀ h, arena.Reaches root h → ∃ term, arena.get? h = some term

/-- Every box of a path lies strictly above a box. -/
def Leads (arena : Arena) (path : List Handle) (h : Handle) : Prop :=
  ∀ box ∈ path, Relation.TransGen arena.Child box h

/-- A grounded box holds a term that satisfies `p` and is made of grounded boxes only. -/
inductive Grounded (arena : Arena) (p : Term → Prop) : Handle → Prop where
  | intro (h : Handle) (term : Term) : arena.get? h = some term → p term →
      (∀ child ∈ term.children, Grounded arena p child) → Grounded arena p h

variable {arena : Arena} {p : Term → Prop} {h child root : Handle} {term : Term}
  {path : List Handle}

/-- The children of a box are those of its content. -/
theorem child_iff (hget : arena.get? h = some term) :
    arena.Child h child ↔ child ∈ term.children := by
  constructor
  · rintro ⟨other, hother, hmem⟩
    cases hget.symm.trans hother
    exact hmem
  · exact fun hmem => ⟨term, hget, hmem⟩

/-- What lies below a child lies below the box. -/
theorem ReachesSome.of_child {P : Handle → Prop} (hchild : arena.Child h child)
    (hsome : arena.ReachesSome P child) : arena.ReachesSome P h := by
  obtain ⟨other, hreach, hother⟩ := hsome
  exact ⟨other, .head hchild hreach, hother⟩

/-! ## Intact boxes -/

/-- What lies below an intact box is intact. -/
theorem Intact.of_reaches (hintact : arena.Intact root) (hreach : arena.Reaches root h) :
    arena.Intact h :=
  fun other hother => hintact other (hreach.trans hother)

/-- What lies below a box of a list that has all children of its boxes is in the list. -/
theorem mem_of_reaches {items : List Handle}
    (hclosed : ∀ box ∈ items, ∀ term ∈ arena.get? box, ∀ child ∈ term.children, child ∈ items)
    (hroot : root ∈ items) (hreach : arena.Reaches root h) : h ∈ items := by
  induction hreach with
  | refl => exact hroot
  | tail _ hchild ih =>
      obtain ⟨term, hget, hmem⟩ := hchild
      exact hclosed _ ih term hget _ hmem

/-- When no box of the arena has a child without a box, every box is intact. -/
theorem intact_of_children_lt
    (hclosed : ∀ box < arena.size, ∀ term ∈ arena.get? box, ∀ child ∈ term.children,
      child < arena.size)
    (hroot : root < arena.size) : arena.Intact root := by
  intro h hreach
  have hbox : h < arena.size := by
    induction hreach with
    | refl => exact hroot
    | tail _ hchild ih =>
        obtain ⟨term, hget, hmem⟩ := hchild
        exact hclosed _ ih term hget _ hmem
  exact ⟨_, Array.getElem?_eq_getElem hbox⟩

/-! ## Paths -/

/-- Nothing has to be shown of the empty path. -/
theorem leads_nil : arena.Leads [] h := by
  intro box hmem
  cases hmem

/-- A path that leads to a box leads, with that box, to its children. -/
theorem Leads.enter (hleads : arena.Leads path h) (hchild : arena.Child h child) :
    arena.Leads (h :: path) child := by
  intro box hmem
  rcases List.mem_cons.mp hmem with rfl | hmem
  · exact .single hchild
  · exact .tail (hleads box hmem) hchild

/-- A box that stands on a path leading to it lies on a cycle. -/
theorem Leads.on_cycle (hleads : arena.Leads path h) (hcount : 0 < path.count h) :
    arena.OnCycle h :=
  hleads h (List.count_pos_iff.mp hcount)

/-! ## Grounded boxes -/

namespace Grounded

/-- The content of a grounded box, with its children grounded. -/
theorem content (hground : arena.Grounded p h) :
    ∃ term, arena.get? h = some term ∧ p term ∧
      ∀ child ∈ term.children, arena.Grounded p child := by
  cases hground with
  | intro _ term hget hterm hchildren => exact ⟨term, hget, hterm, hchildren⟩

/-- What lies below a grounded box is grounded. -/
theorem of_reaches {other : Handle} (hground : arena.Grounded p h)
    (hreach : arena.Reaches h other) : arena.Grounded p other := by
  induction hreach with
  | refl => exact hground
  | tail _ hchild ih =>
      obtain ⟨term, hget, _, hchildren⟩ := ih.content
      exact hchildren _ ((child_iff hget).mp hchild)

/-- No handle below a grounded box dangles. -/
theorem intact (hground : arena.Grounded p h) : arena.Intact h := by
  intro other hreach
  obtain ⟨term, hget, _⟩ := (hground.of_reaches hreach).content
  exact ⟨term, hget⟩

/-- A grounded box does not lie on a cycle. -/
theorem not_on_cycle (hground : arena.Grounded p h) : ¬ arena.OnCycle h := by
  induction hground with
  | intro h term hget _ _ ih =>
      -- The cycle passes through a child, so it can be turned to begin there.
      intro hcycle
      obtain ⟨child, hchild, hback⟩ := Relation.TransGen.head'_iff.mp hcycle
      exact ih child ((child_iff hget).mp hchild) (.tail' hback hchild)

/-- A path that leads to a grounded box does not hold it. -/
theorem count_eq_zero (hground : arena.Grounded p h) (hleads : arena.Leads path h) :
    path.count h = 0 := by
  rcases Nat.eq_zero_or_pos (path.count h) with hzero | hpos
  · exact hzero
  · exact absurd (hleads.on_cycle hpos) hground.not_on_cycle

end Grounded

end StringReach.Arena
