import StringReach.Solution.Assemble
import StringReach.Term.Recursion
import Std.Data.ExtTreeMap

/-!
# The solver of acyclic terms

An acyclic term has a finite unfolding, whose solution is computed once per box. A term that is not
acyclic is refused by `solveAcyclic`; `evaluate` relies on its caller for that. An `AcyclicSolver`
may be used for several terms and gives the same answers.
-/

namespace StringReach.Arena

mutual

/-- Solve a box reached along a path of compound boxes, sharing the solutions of boxes solved
before. -/
def evaluateBelow (arena : Arena) (path : Path) (known : Std.ExtTreeMap Handle Solution)
    (h : Handle) : Except Violation (Solution × Std.ExtTreeMap Handle Solution) :=
  match _hget : arena.get? h with
  | none => .error (.danglingBox h)
  | some term =>
      match known[h]? with
      | some solution => .ok (solution, known)
      | none =>
          if term = .pending then
            .error (.pendingReached h)
          else if _hpath : 0 < path.count h then
            .error (.recursiveTerm h)
          else do
            let (parts, known) ← evaluateAll arena (path.enter h) known term.children
            let solution := term.assemble parts
            pure (solution, known.insert h solution)
termination_by (arena.room 0 path, 0)
decreasing_by exact Prod.Lex.left _ _ (room_enter_lt (lt_size_of_get? _hget) (by omega))

/-- Solve several boxes in turn. -/
def evaluateAll (arena : Arena) (path : Path) (known : Std.ExtTreeMap Handle Solution) :
    List Handle → Except Violation (List Solution × Std.ExtTreeMap Handle Solution)
  | [] => .ok ([], known)
  | h :: rest => do
      let (first, known) ← evaluateBelow arena path known h
      let (others, known) ← evaluateAll arena path known rest
      pure (first :: others, known)
termination_by items => (arena.room 0 path, items.length)

end

/-- The solution of a box that is known to be acyclic. -/
def evaluate (arena : Arena) (root : Handle) : Except Violation Solution := do
  let (solution, _) ← arena.evaluateBelow .empty ∅ root
  pure solution

/-- The solution of a box, refused when the box is recursive. -/
def solveAcyclic (arena : Arena) (root : Handle) : Except Violation Solution := do
  if ← arena.isRecursive false root then
    .error (.recursiveTerm root)
  else
    arena.evaluate root

/-- A solver of acyclic terms. Between uses it keeps the solutions that the last use left in it. -/
structure AcyclicSolver where
  /-- To what depth calls are looked into; at any depth a call may return any string. -/
  inlineDepth : Nat := 0
  known : Std.ExtTreeMap Handle Solution := ∅

namespace AcyclicSolver

/-- The solution of a box that is known to be acyclic, and the solver after this use. What earlier
uses left is forgotten first. -/
def evaluate (solver : AcyclicSolver) (arena : Arena) (root : Handle) :
    Except Violation Solution × AcyclicSolver :=
  let fresh := { solver with known := ∅ }
  match arena.evaluateBelow .empty fresh.known root with
  | .ok (solution, known) => (.ok solution, { fresh with known })
  | .error violation => (.error violation, fresh)

/-- The solution of a box, refused when the box is recursive, and the solver after this use. -/
def solve (solver : AcyclicSolver) (arena : Arena) (root : Handle) :
    Except Violation Solution × AcyclicSolver :=
  match arena.isRecursive false root with
  | .ok true => (.error (.recursiveTerm root), solver)
  | .ok false => solver.evaluate arena root
  | .error violation => (.error violation, solver)

end AcyclicSolver

end StringReach.Arena
