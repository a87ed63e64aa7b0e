import StringReach.Solution.Assemble
import StringReach.Term.Path
import Std.Data.ExtTreeMap

/-!
# The bounded solver

The bounded solver computes the solution of any term, cyclic or not, by unfolding it to a bounded
depth. Solutions of boxes below which no box of the path was met again do not depend on the path,
so they are remembered and shared.
-/

namespace StringReach.Arena

/-- What the bounded solver carries along: the solutions to share, and how often it has met a box
that was on its path already. -/
structure Unrolling where
  known : Std.ExtTreeMap Handle Solution := ∅
  revisits : Nat := 0

mutual

/-- Solve a box reached along a path of compound boxes. -/
def unroll (arena : Arena) (depth : Nat) (path : Path) (state : Unrolling) (h : Handle) :
    Except Violation (Solution × Unrolling) :=
  match _hget : arena.get? h with
  | none => .error (.danglingBox h)
  | some term =>
      if !term.isCompound then
        .ok (term.assemble [], state)
      else match state.known[h]? with
        | some solution => .ok (solution, state)
        | none =>
            let revisits := if 0 < path.count h then state.revisits + 1 else state.revisits
            if _hroom : path.count h ≤ depth then do
              let inside := { state with revisits := revisits }
              let (parts, after) ← unrollAll arena depth (path.enter h) inside term.children
              let solution := term.assemble parts
              if after.revisits = revisits then
                pure (solution, { after with known := after.known.insert h solution })
              else
                pure (solution, after)
            else
              .ok (.cut, { state with revisits := revisits })
termination_by (arena.room depth path, 0)
decreasing_by exact Prod.Lex.left _ _ (room_enter_lt (lt_size_of_get? _hget) _hroom)

/-- Solve several boxes in turn. -/
def unrollAll (arena : Arena) (depth : Nat) (path : Path) (state : Unrolling) :
    List Handle → Except Violation (List Solution × Unrolling)
  | [] => .ok ([], state)
  | h :: rest => do
      let (first, state) ← unroll arena depth path state h
      let (others, state) ← unrollAll arena depth path state rest
      pure (first :: others, state)
termination_by items => (arena.room depth path, items.length)

end

/-- How often a box may be met again on its own path when nothing else is said. -/
def defaultDepth : Nat := 5

/-- The solution of a box, with every cycle cut at the given depth. -/
def solveBounded (arena : Arena) (depth : Nat) (root : Handle) : Except Violation Solution := do
  let (solution, _) ← arena.unroll depth .empty {} root
  pure solution

end StringReach.Arena
