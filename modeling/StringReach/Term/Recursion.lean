import StringReach.Term.Path
import Std.Data.ExtTreeSet

/-!
# Recursive terms

A term is recursive when its evaluation would have to unfold a cycle or meets a box without
content. `Arena.isRecursive` finds out by a depth-first sweep that enters every compound box once.
-/

namespace StringReach.Arena

/-- What a sweep has learnt: the boxes that it has left, and whether a cycle or an empty box was
met. -/
structure Sweep where
  finished : Std.ExtTreeSet Handle := ∅
  recursive : Bool := false

/-- What a box without children adds to a sweep. -/
def Sweep.pass (seen : Sweep) (followCalls : Bool) (h : Handle) : Term → Except Violation Sweep
  | .pending => .ok { seen with recursive := true }
  | .call callee => if followCalls then .error (.callFollowed h callee) else .ok seen
  | _ => .ok seen

mutual

/-- Sweep the part of the graph below a box. The path holds the boxes that are entered and not yet
left; to meet one of them again is to close a cycle. -/
def sweep (arena : Arena) (followCalls : Bool) (path : Path) (seen : Sweep) (h : Handle) :
    Except Violation Sweep :=
  match _hget : arena.get? h with
  | none => .error (.danglingBox h)
  | some term =>
      if !term.isCompound then
        seen.pass followCalls h term
      else if seen.finished.contains h then
        .ok seen
      else if _hpath : 0 < path.count h then
        .ok { seen with recursive := true }
      else do
        let seen ← sweepAll arena followCalls (path.enter h) seen term.children
        pure { seen with finished := seen.finished.insert h }
termination_by (arena.room 0 path, 0)
decreasing_by exact Prod.Lex.left _ _ (room_enter_lt (lt_size_of_get? _hget) (by omega))

/-- Sweep below several boxes in turn. -/
def sweepAll (arena : Arena) (followCalls : Bool) (path : Path) (seen : Sweep) :
    List Handle → Except Violation Sweep
  | [] => .ok seen
  | h :: rest => do
      let seen ← sweep arena followCalls path seen h
      sweepAll arena followCalls path seen rest
termination_by items => (arena.room 0 path, items.length)

end

/-- A checker for recursive terms. Between uses it keeps what the last use left in it: the boxes
that were entered and not left, and what was learnt. -/
structure Checker where
  /-- Calls are taken to be inlined, so that to meet one is a violation. -/
  followCalls : Bool := false
  entered : Path := .empty
  seen : Sweep := {}

namespace Checker

/-- The checker as it was before any use. -/
def reset (checker : Checker) : Checker :=
  { followCalls := checker.followCalls }

/-- Whether evaluating a box would unfold a cycle or meet a box without content, and the checker
after this use. What earlier uses left is forgotten first. -/
def check (checker : Checker) (arena : Arena) (root : Handle) :
    Except Violation Bool × Checker :=
  let fresh := checker.reset
  match arena.sweep fresh.followCalls fresh.entered fresh.seen root with
  | .ok seen => (.ok seen.recursive, { fresh with seen })
  | .error violation => (.error violation, fresh)

end Checker

/-- The answer of a new checker. -/
def isRecursive (arena : Arena) (followCalls : Bool) (root : Handle) : Except Violation Bool :=
  (Checker.check { followCalls } arena root).1

end StringReach.Arena
