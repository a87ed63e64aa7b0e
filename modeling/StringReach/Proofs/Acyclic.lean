import StringReach.Proofs.Bounded
import StringReach.Proofs.Recursion
import StringReach.Solution.Resolve

/-!
# The solver of acyclic terms agrees with the bounded solver

A term that the recursion checker accepts is grounded, so its meaning is stable: neither the depth
nor the way to a box changes it. `evaluate_stable` says that the solver of acyclic terms computes
this meaning. The choice between the two solvers is therefore a matter of speed only
(`resolve_same_answer`).
-/

namespace StringReach.Arena

variable {arena : Arena} {h root : Handle}

/-! ## The solver of acyclic terms -/

/-- Solving several boxes in turn succeeds when solving each of them does. -/
theorem evaluate_all_stable (path : Path) {items : List Handle}
    (hitems : ∀ h ∈ items, ∀ known, arena.StableTable known →
      ∃ solution after, arena.evaluateBelow path known h = .ok (solution, after) ∧
        arena.Stable h solution ∧ arena.StableTable after)
    (known : Std.ExtTreeMap Handle Solution) (hknown : arena.StableTable known) :
    ∃ parts after, arena.evaluateAll path known items = .ok (parts, after) ∧
      List.Forall₂ arena.Stable items parts ∧ arena.StableTable after := by
  induction items generalizing known with
  | nil =>
      rw [evaluateAll]
      exact ⟨[], known, rfl, .nil, hknown⟩
  | cons h rest ih =>
      obtain ⟨solution, middle, hfirst, hstable, hmiddle⟩ := hitems h (by simp) known hknown
      obtain ⟨parts, after, hrest, hparts, hafter⟩ :=
        ih (fun box hmem => hitems box (List.mem_cons_of_mem h hmem)) middle hmiddle
      refine ⟨solution :: parts, after, ?_, .cons hstable hparts, hafter⟩
      rw [evaluateAll, hfirst]
      show (arena.evaluateAll path middle rest >>= fun result =>
        pure (solution :: result.1, result.2)) = _
      rw [hrest]
      rfl

/-- Below a grounded box the solver meets neither a cycle nor a box without content. -/
theorem evaluate_below_stable (hground : arena.Grounded (· ≠ .pending) h) (path : Path)
    (hleads : arena.Leads path.boxes h) (known : Std.ExtTreeMap Handle Solution)
    (hknown : arena.StableTable known) :
    ∃ solution after, arena.evaluateBelow path known h = .ok (solution, after) ∧
      arena.Stable h solution ∧ arena.StableTable after := by
  induction hground generalizing path known with
  | intro h term hget hterm hchildren ih =>
      -- The way to a grounded box never holds the box, so the cycle test does not fail.
      have hcount := (Grounded.intro h term hget hterm hchildren).count_eq_zero hleads
      rw [evaluateBelow]
      split
      · rename_i hnone
        cases hget.symm.trans hnone
      · rename_i other hother
        cases hget.symm.trans hother
        split
        · rename_i solution hfound
          exact ⟨solution, known, rfl, hknown h solution hfound, hknown⟩
        · rw [if_neg hterm, dif_neg (by rw [Path.count_eq, hcount]; exact Nat.lt_irrefl 0)]
          obtain ⟨parts, after, hall, hparts, hafter⟩ :=
            evaluate_all_stable (path.enter h)
              (fun child hmem => ih child hmem (path.enter h)
                (hleads.enter ((child_iff hget).mpr hmem)))
              known hknown
          have hstable : arena.Stable h (term.assemble parts) := .assemble hget hparts
          rw [hall]
          exact ⟨_, _, rfl, hstable, hafter.insert hstable⟩

/-- The solution of a grounded box is what the box always unfolds to. -/
theorem evaluate_stable (hground : arena.Grounded (· ≠ .pending) root) :
    ∃ solution, arena.evaluate root = .ok solution ∧ arena.Stable root solution := by
  obtain ⟨solution, after, hsolve, hstable, _⟩ :=
    evaluate_below_stable hground .empty leads_nil ∅ stable_table_empty
  refine ⟨solution, ?_, hstable⟩
  rw [evaluate, hsolve]
  rfl

/-- On a grounded box the two solvers agree at every depth. -/
theorem solvers_agree (hground : arena.Grounded (· ≠ .pending) root) :
    ∃ solution, arena.evaluate root = .ok solution ∧
      ∀ depth, arena.solveBounded depth root = .ok solution := by
  obtain ⟨solution, hevaluate, hstable⟩ := evaluate_stable hground
  refine ⟨solution, hevaluate, ?_⟩
  intro depth
  obtain ⟨bounded, hsolve, hunfolds⟩ := solve_bounded_unfolds hground.intact depth
  obtain ⟨hlanguage, hwarnings⟩ :=
    hunfolds.deterministic (hstable.unfolds depth [] leads_nil)
  rw [hsolve, Solution.ext_language hlanguage hwarnings]

/-! ## Resolving with either solver -/

/-- Two answers are the same except for the strategy: the same violation, or the same solution and
the same verdict on recursion. -/
def SameAnswer : Except Violation Resolution → Except Violation Resolution → Prop
  | .ok a, .ok b => a.solution = b.solution ∧ a.recursive = b.recursive
  | .error a, .error b => a = b
  | _, _ => False

/-- Resolving gives the same answer with the shorter way for acyclic terms and without it. -/
theorem resolve_same_answer (arena : Arena) (settings : ResolverSettings) (root : Handle) :
    SameAnswer (arena.resolve { settings with acyclicFastPath := true } root)
      (arena.resolve { settings with acyclicFastPath := false } root) := by
  rw [resolve, resolve]
  show SameAnswer (arena.isRecursive settings.followCalls root >>= _)
    (arena.isRecursive settings.followCalls root >>= _)
  cases hcheck : arena.isRecursive settings.followCalls root with
  | error violation => exact rfl
  | ok recursive =>
      cases recursive with
      | true =>
          -- A recursive term is solved to a bounded depth under either setting.
          show SameAnswer (arena.solveBounded settings.recursionDepth root >>= _)
            (arena.solveBounded settings.recursionDepth root >>= _)
          cases arena.solveBounded settings.recursionDepth root with
          | error violation => exact rfl
          | ok solution => exact ⟨rfl, rfl⟩
      | false =>
          obtain ⟨solution, hevaluate, hbounded⟩ :=
            solvers_agree (Checker.grounded_of_check hcheck)
          show SameAnswer (arena.evaluate root >>= _)
            (arena.solveBounded settings.recursionDepth root >>= _)
          rw [hevaluate, hbounded]
          exact ⟨rfl, rfl⟩

/-- On a term without recursion all solvers give one solution, at every depth. Hence neither the
shorter way for acyclic terms nor the depth of inlining changes what a term is resolved to. -/
theorem fast_path_agrees (arena : Arena) (root : Handle) :
    (arena.isRecursive false root = .ok false →
      ∃ solution, arena.solveAcyclic root = .ok solution ∧ arena.evaluate root = .ok solution ∧
        ∀ depth, arena.solveBounded depth root = .ok solution) ∧
    ∀ settings : ResolverSettings,
      SameAnswer (arena.resolve { settings with acyclicFastPath := true } root)
        (arena.resolve { settings with acyclicFastPath := false } root) ∧
      ∀ inlineDepth, arena.resolve { settings with inlineDepth } root =
        arena.resolve settings root := by
  refine ⟨?_, fun settings => ⟨resolve_same_answer arena settings root, fun _ => rfl⟩⟩
  intro hcheck
  obtain ⟨solution, hevaluate, hbounded⟩ := solvers_agree (Checker.grounded_of_check hcheck)
  refine ⟨solution, ?_, hevaluate, hbounded⟩
  rw [solveAcyclic, hcheck]
  exact hevaluate

/-- A term whose boxes are shared, with an unknown value and a call among them. -/
def sharedTree : Arena where
  slots := #[.terminal "a", .top, .union [0, 1], .concat 2 2, .eq 3, .call "f", .union [3, 4, 5]]

/-- The shared term is not recursive, so the three solvers give it one solution at every depth. -/
theorem fast_path_agrees_shared_tree :
    sharedTree.isRecursive false 6 = .ok false ∧
      ∃ solution, sharedTree.solveAcyclic 6 = .ok solution ∧
        sharedTree.evaluate 6 = .ok solution ∧
        ∀ depth, sharedTree.solveBounded depth 6 = .ok solution := by
  have hcheck : sharedTree.isRecursive false 6 = .ok false := by
    simp [isRecursive, Checker.check, Checker.reset, sweep, sweepAll, Sweep.pass, sharedTree, get?,
      Term.isCompound, Term.children, Path.count_enter, Path.count_empty, bind, Except.bind, pure,
      Except.pure]
  exact ⟨hcheck, (fast_path_agrees sharedTree 6).1 hcheck⟩

end StringReach.Arena
