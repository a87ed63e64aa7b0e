import StringReach.Term.Arena
import Std.Data.ExtTreeMap

/-!
# Paths through an arena

A traversal of a cyclic graph carries the path of compound boxes that it is inside of. A box may
stand on the path `depth + 1` times at most. `room` counts the places that are left, and
`room_enter_lt` says that entering a box takes one of them, so every traversal that respects the
limit ends.
-/

namespace StringReach.Arena

/-- The compound boxes that a traversal is inside of, the innermost first. A path may be long, so
how often each box stands on it is kept beside it. -/
structure Path where
  boxes : List Handle := []
  counts : Std.ExtTreeMap Handle Nat := ∅
  counts_eq : ∀ h, counts.getD h 0 = boxes.count h := by simp

namespace Path

/-- The path of a traversal that is inside of nothing. -/
def empty : Path := {}

/-- How often a box stands on a path. -/
def count (path : Path) (h : Handle) : Nat :=
  path.counts.getD h 0

/-- The path inside of one more box. -/
def enter (path : Path) (h : Handle) : Path where
  boxes := h :: path.boxes
  counts := path.counts.insert h (path.count h + 1)
  counts_eq other := by
    by_cases heq : h = other
    · subst heq
      simp [count, path.counts_eq]
    · simp [Std.ExtTreeMap.getD_insert, heq, path.counts_eq]

/-- A box is counted where it stands. -/
theorem count_eq (path : Path) (h : Handle) : path.count h = path.boxes.count h :=
  path.counts_eq h

/-- Nothing stands on the empty path. -/
theorem count_empty (h : Handle) : empty.count h = 0 := by
  simp [count_eq, empty]

/-- Entering a box adds one to its count and to no other. -/
theorem count_enter (path : Path) (h other : Handle) :
    (path.enter h).count other = path.count other + if h = other then 1 else 0 := by
  simp only [count_eq, enter, List.count_cons, beq_iff_eq]

end Path

/-- How often the boxes of an arena may still be entered below a path on which each of them may
stand `depth + 1` times. -/
def room (arena : Arena) (depth : Nat) (path : Path) : Nat :=
  ((List.range arena.size).map fun h => depth + 1 - path.count h).foldr (· + ·) 0

/-- Sums are ordered like their terms, and strictly where one term is. -/
theorem sum_map_lt_sum_map {items : List Nat} {f g : Nat → Nat} (item : Nat)
    (hle : ∀ i ∈ items, f i ≤ g i) (hmem : item ∈ items) (hlt : f item < g item) :
    (items.map f).foldr (· + ·) 0 < (items.map g).foldr (· + ·) 0 := by
  have hsum : ∀ l : List Nat, (∀ i ∈ l, f i ≤ g i) →
      (l.map f).foldr (· + ·) 0 ≤ (l.map g).foldr (· + ·) 0 := by
    intro l hl
    induction l with
    | nil => simp
    | cons first rest ih =>
        have hfirst := hl first (by simp)
        have hrest := ih fun i hi => hl i (by simp [hi])
        simp only [List.map_cons, List.foldr_cons]
        omega
  induction items with
  | nil => simp at hmem
  | cons first rest ih =>
      have hfirst := hle first (by simp)
      have hrest := hsum rest fun i hi => hle i (by simp [hi])
      simp only [List.map_cons, List.foldr_cons]
      rcases List.mem_cons.mp hmem with heq | hin
      · subst heq
        omega
      · have := ih (fun i hi => hle i (by simp [hi])) hin
        omega

/-- Entering a box that is not yet on the path too often takes room. -/
theorem room_enter_lt {arena : Arena} {depth : Nat} {path : Path} {h : Handle}
    (hbox : h < arena.size) (hcount : path.count h ≤ depth) :
    arena.room depth (path.enter h) < arena.room depth path := by
  apply sum_map_lt_sum_map h
  · intro i _
    rw [Path.count_enter]
    omega
  · simpa using hbox
  · rw [Path.count_enter, if_pos rfl]
    omega

end StringReach.Arena
