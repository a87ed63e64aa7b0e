import StringReach.Program.Point
import StringReach.Solution.Resolve

/-!
# Results of an iteration

The results of an iteration list the resolution of every tracked point in the order of the points.
-/

namespace StringReach

/-- The resolution of a tracked point. -/
structure ResolvedPoint where
  point : Point
  resolution : Resolution
deriving DecidableEq

namespace ResolvedPoint

/-- The strings that may reach the point, in order. -/
def strings (entry : ResolvedPoint) : List String :=
  entry.resolution.solution.strings.toList

/-- The warnings met on the way to the strings. -/
def warnings (entry : ResolvedPoint) : Nat :=
  entry.resolution.solution.warnings

end ResolvedPoint

/-- The results of one iteration. -/
structure Results where
  iteration : Nat
  points : List ResolvedPoint := []
deriving DecidableEq

namespace Results

/-- Narrow a window of `size` entries from `start` on to its last entry that is not after a point.
In entries that are in order the middle one says in which half that entry is. -/
def narrow (entries : Array ResolvedPoint) (point : Point) (start size : Nat) : Nat :=
  if size ≤ 1 then
    start
  else
    let middle := start + size / 2
    let isAfter := (entries[middle]?).any fun entry => compare entry.point point == .gt
    narrow entries point (if isAfter then start else middle) (size - size / 2)
termination_by size
decreasing_by omega

/-- The entry of a point, found by halving. An entry that is out of order may be missed. -/
def find? (results : Results) (point : Point) : Option ResolvedPoint :=
  let entries := results.points.toArray
  (entries[narrow entries point 0 entries.size]?).filter (·.point = point)

/-- The strings at a point, none when it is not tracked. -/
def stringsAt (results : Results) (point : Point) : List String :=
  match results.find? point with
  | some entry => entry.strings
  | none => []

/-- The warnings at all points together. -/
def totalWarnings (results : Results) : Nat :=
  (results.points.map (·.warnings)).foldr (· + ·) 0

end Results

end StringReach
