import StringReach.Proofs.Violations

/-!
# The tree of an acyclic term

A box from which every descent ends expands to a finite tree, in which a box that is shared occurs
once for each way to it. A tree has strings and warnings by rules of its own, and every warning
counts where it occurs. `Expands.unfolds` says that this is what the box unfolds to. A solver of
acyclic terms, whatever it was used for before, finds the strings and warnings of the tree or says
why there is none (`solve_exact`).
-/

namespace StringReach

/-- A finite tree of terms. -/
inductive Tree where
  | top
  | bottom
  | terminal (value : String)
  | parameter
  | call (callee : String)
  | pending
  | union (items : List Tree)
  | concat (left right : Tree)
  | eq (inner : Tree)

namespace Tree

mutual

/-- The strings of a tree. An unknown value has none; one from elsewhere, or without content, may
be any. -/
def language : Tree → Set String
  | top => ∅
  | bottom | parameter | call _ | pending => {Wildcard.marker}
  | terminal value => {value}
  | union items => languageAny items
  | concat left right => Set.image2 (· ++ ·) left.language right.language
  | eq inner => inner.language

/-- The strings of any of several trees. -/
def languageAny : List Tree → Set String
  | [] => ∅
  | item :: rest => item.language ∪ languageAny rest

end

mutual

/-- The warnings of a tree: the occurrences of values that are unknown or without content. -/
def warnings : Tree → Nat
  | top | pending => 1
  | bottom | parameter | call _ | terminal _ => 0
  | union items => warningsAll items
  | concat left right => left.warnings + right.warnings
  | eq inner => inner.warnings

/-- The warnings of several trees together. -/
def warningsAll : List Tree → Nat
  | [] => 0
  | item :: rest => item.warnings + warningsAll rest

end

/-- The strings of trees that are given for boxes. -/
theorem language_any_map (items : List Handle) (tree : Handle → Tree) :
    languageAny (items.map tree) = ⋃ item ∈ items, (tree item).language := by
  induction items with
  | nil => simp [languageAny]
  | cons item rest ih => simp [languageAny, ih, Set.iUnion_or, Set.iUnion_union_distrib]

/-- The warnings of trees that are given for boxes. -/
theorem warnings_all_map (items : List Handle) (tree : Handle → Tree) :
    warningsAll (items.map tree) = (items.map fun item => (tree item).warnings).sum := by
  induction items with
  | nil => rfl
  | cons item rest ih => simp [warningsAll, ih]

end Tree

namespace Arena

/-- `Expands arena h tree` says that the terms at and below `h` form the tree. -/
inductive Expands (arena : Arena) : Handle → Tree → Prop where
  | top (h) : arena.get? h = some .top → Expands arena h .top
  | bottom (h) : arena.get? h = some .bottom → Expands arena h .bottom
  | terminal (h value) : arena.get? h = some (.terminal value) → Expands arena h (.terminal value)
  | parameter (h) : arena.get? h = some .parameter → Expands arena h .parameter
  | call (h callee) : arena.get? h = some (.call callee) → Expands arena h (.call callee)
  | pending (h) : arena.get? h = some .pending → Expands arena h .pending
  | union (h items) (tree : Handle → Tree) : arena.get? h = some (.union items) →
      (∀ item ∈ items, Expands arena item (tree item)) → Expands arena h (.union (items.map tree))
  | concat (h left right leftTree rightTree) : arena.get? h = some (.concat left right) →
      Expands arena left leftTree → Expands arena right rightTree →
      Expands arena h (.concat leftTree rightTree)
  | eq (h inner tree) : arena.get? h = some (.eq inner) → Expands arena inner tree →
      Expands arena h (.eq tree)

variable {arena : Arena} {root h : Handle} {tree : Tree} {p : Term → Prop}

/-- A box from which every descent ends has a tree. -/
theorem Grounded.exists_expands (hground : arena.Grounded p h) : ∃ tree, arena.Expands h tree := by
  induction hground with
  | intro h term hget _ _ ih =>
      cases term with
      | top => exact ⟨_, .top h hget⟩
      | bottom => exact ⟨_, .bottom h hget⟩
      | terminal value => exact ⟨_, .terminal h value hget⟩
      | parameter => exact ⟨_, .parameter h hget⟩
      | call callee => exact ⟨_, .call h callee hget⟩
      | pending => exact ⟨_, .pending h hget⟩
      | union items =>
          have htree : ∀ item, ∃ tree, item ∈ items → arena.Expands item tree := by
            intro item
            by_cases hmem : item ∈ items
            · obtain ⟨tree, hexpands⟩ := ih item hmem
              exact ⟨tree, fun _ => hexpands⟩
            · exact ⟨.top, fun hitem => absurd hitem hmem⟩
          choose tree htree using htree
          exact ⟨_, .union h items tree hget htree⟩
      | concat left right =>
          obtain ⟨leftTree, hleft⟩ := ih left (by simp [Term.children])
          obtain ⟨rightTree, hright⟩ := ih right (by simp [Term.children])
          exact ⟨_, .concat h left right leftTree rightTree hget hleft hright⟩
      | eq inner =>
          obtain ⟨tree, hinner⟩ := ih inner (by simp [Term.children])
          exact ⟨_, .eq h inner tree hget hinner⟩

namespace Expands

/-- Every descent from a box that has a tree ends. -/
theorem grounded (hexpands : arena.Expands h tree) : arena.Grounded (fun _ => True) h := by
  induction hexpands with
  | top h hget | bottom h hget | terminal h _ hget | parameter h hget | call h _ hget
  | pending h hget => exact .intro h _ hget trivial (by simp [Term.children])
  | union h items tree hget _ ih => exact .intro h _ hget trivial ih
  | concat h left right _ _ hget _ _ ihleft ihright =>
      refine .intro h _ hget trivial ?_
      simpa [Term.children] using ⟨ihleft, ihright⟩
  | eq h inner _ hget _ ih =>
      refine .intro h _ hget trivial ?_
      simpa [Term.children] using ih

/-- A box unfolds to the strings and warnings of its tree, at every depth and from every path. -/
theorem unfolds (hexpands : arena.Expands h tree) (depth : Nat) (path : List Handle)
    (hleads : arena.Leads path h) : arena.Unfolds depth path h tree.language tree.warnings := by
  -- A box that has a tree is never cut off, since no way to it passes through it.
  have hcount : ∀ {h tree path}, arena.Expands h tree → arena.Leads path h →
      path.count h ≤ depth := by
    intro h tree path hexpands hleads
    rw [hexpands.grounded.count_eq_zero hleads]
    exact Nat.zero_le depth
  induction hexpands generalizing path with
  | top h hget => exact .top path h hget
  | bottom h hget => exact .bottom path h hget
  | terminal h value hget => exact .terminal path h value hget
  | parameter h hget => exact .parameter path h hget
  | call h callee hget => exact .call path h callee hget
  | pending h hget => exact .pending path h hget
  | union h items tree hget hitems ih =>
      rw [Tree.language, Tree.language_any_map, Tree.warnings, Tree.warnings_all_map]
      refine .union path h items _ _ hget (hcount (.union h items tree hget hitems) hleads) ?_
      intro item hmem
      exact ih item hmem (h :: path) (hleads.enter ((child_iff hget).mpr hmem))
  | concat h left right leftTree rightTree hget hleft hright ihleft ihright =>
      rw [Tree.language, Tree.warnings]
      have hbelow : ∀ child ∈ [left, right], arena.Leads (h :: path) child :=
        fun child hmem => hleads.enter ((child_iff hget).mpr hmem)
      exact .concat path h left right _ _ _ _ hget
        (hcount (.concat h left right leftTree rightTree hget hleft hright) hleads)
        (ihleft _ (hbelow left (by simp))) (ihright _ (hbelow right (by simp)))
  | eq h inner tree hget hinner ih =>
      rw [Tree.language, Tree.warnings]
      exact .eq path h inner _ _ hget (hcount (.eq h inner tree hget hinner) hleads)
        (ih (h :: path) (hleads.enter ((child_iff hget).mpr (by simp [Term.children]))))

end Expands

/-! ## The solver -/

/-- A box is intact when no handle at or below it dangles. -/
theorem not_intact_iff : ¬ arena.Intact root ↔ ∃ h, arena.Reaches root h ∧ arena.get? h = none := by
  simp [Intact, ← Option.ne_none_iff_exists']

/-- A box below which a handle dangles is refused, and the answer names such a handle. -/
theorem solve_acyclic_of_dangling (hdangling : ¬ arena.Intact root) :
    ∃ h, arena.Reaches root h ∧ arena.get? h = none ∧
      arena.solveAcyclic root = .error (.danglingBox h) := by
  cases hcheck : arena.isRecursive false root with
  | ok recursive => exact absurd (check_grounded hcheck).1 hdangling
  | error violation =>
      cases is_recursive_stops hcheck with
      | dangling h hreach hget =>
          refine ⟨h, hreach, hget, ?_⟩
          rw [solveAcyclic, hcheck]
          rfl
      | call _ _ hfollow => cases hfollow

/-- A box below which there is a cycle or a box without content is refused as recursive. -/
theorem solve_acyclic_of_endless (hintact : arena.Intact root)
    (hendless : arena.ReachesSome arena.Endless root) :
    arena.solveAcyclic root = .error (.recursiveTerm root) := by
  rw [solveAcyclic, hintact.check_raised_iff.mpr hendless]
  rfl

/-- Any other box has a tree, and its solution has the strings and warnings of the tree. -/
theorem solve_acyclic_of_ends (hintact : arena.Intact root)
    (hends : ¬ arena.ReachesSome arena.Endless root) :
    ∃ solution, arena.solveAcyclic root = .ok solution ∧ (∃ tree, arena.Expands root tree) ∧
      ∀ tree, arena.Expands root tree →
        solution.language = tree.language ∧ solution.warnings = tree.warnings := by
  obtain ⟨recursive, hcheck⟩ := hintact.exists_check
  cases recursive with
  | true => exact absurd (Checker.reaches_endless_of_check hcheck) hends
  | false =>
      have hground := Checker.grounded_of_check hcheck
      obtain ⟨solution, hsolve, hvalue⟩ := hground.exists_solution
      refine ⟨solution, hsolve, hground.exists_expands, ?_⟩
      intro tree hexpands
      exact (hvalue.stable.unfolds 0 [] leads_nil).deterministic
        (hexpands.unfolds 0 [] leads_nil)

namespace AcyclicSolver

/-- What earlier uses left in a solver does not matter, nor does the depth to which it looks into
calls. -/
theorem solve_eq (solver : AcyclicSolver) (arena : Arena) (root : Handle) :
    (solver.solve arena root).1 = arena.solveAcyclic root := by
  rw [solve, solveAcyclic]
  cases arena.isRecursive false root with
  | error violation => rfl
  | ok recursive =>
      cases recursive with
      | true => rfl
      | false =>
          show (solver.evaluate arena root).1 = arena.evaluate root
          rw [evaluate, Arena.evaluate]
          dsimp only
          cases arena.evaluateBelow .empty ∅ root <;> rfl

/-- Whatever a solver was used for before, it finds that a handle dangles exactly if one below the
box does, and names such a handle. Otherwise it finds the box recursive exactly if a cycle or a box
without content lies below, and in all other cases it gives the strings and warnings of the tree of
the box. It never stops at a box without content. -/
theorem solve_exact (solver : AcyclicSolver) (arena : Arena) (root : Handle) :
    ((∃ h, (solver.solve arena root).1 = .error (.danglingBox h)) ↔
      ∃ h, arena.Reaches root h ∧ arena.get? h = none) ∧
    (∀ h, (solver.solve arena root).1 = .error (.danglingBox h) →
      arena.Reaches root h ∧ arena.get? h = none) ∧
    ((solver.solve arena root).1 = .error (.recursiveTerm root) ↔
      arena.Intact root ∧ arena.ReachesSome arena.Endless root) ∧
    ((∃ solution, (solver.solve arena root).1 = .ok solution ∧
        (∃ tree, arena.Expands root tree) ∧ ∀ tree, arena.Expands root tree →
          solution.language = tree.language ∧ solution.warnings = tree.warnings) ↔
      arena.Intact root ∧ ¬ arena.ReachesSome arena.Endless root) ∧
    ∀ h, (solver.solve arena root).1 ≠ .error (.pendingReached h) := by
  rw [solve_eq, ← not_intact_iff]
  by_cases hintact : arena.Intact root
  · by_cases hendless : arena.ReachesSome arena.Endless root
    · have hsolve := solve_acyclic_of_endless hintact hendless
      simp [hsolve, hintact, hendless]
    · obtain ⟨solution, hsolve, htree⟩ := solve_acyclic_of_ends hintact hendless
      simpa [hsolve, hintact, hendless] using htree
  · obtain ⟨h, hreach, hget, hsolve⟩ := solve_acyclic_of_dangling hintact
    simp [hsolve, hintact, hreach, hget]

/-- A solver that was used for another term. -/
def usedSolver : AcyclicSolver where
  inlineDepth := 2
  known := (∅ : Std.ExtTreeMap Handle Solution).insert 3 (.literal "b")

/-- A term below which a handle dangles, and a cycle. -/
def danglingLoop : Arena where
  slots := #[.union [0, 2], .pending]

/-- The tree of the shared term. Its unknown value occurs four times. -/
theorem shared_tree_expands : ∃ tree, sharedTree.Expands 6 tree ∧ tree.warnings = 4 := by
  have hletter : sharedTree.Expands 0 (.terminal "a") := .terminal 0 "a" rfl
  have hunknown : sharedTree.Expands 1 .top := .top 1 rfl
  have heither : sharedTree.Expands 2 (.union [.terminal "a", .top]) :=
    .union 2 [0, 1] (fun h => if h = 0 then .terminal "a" else .top) rfl
      (by simp [hletter, hunknown])
  have htwice := Expands.concat 3 2 2 _ _ rfl heither heither
  have hsame := Expands.eq 4 3 _ rfl htwice
  have hcall : sharedTree.Expands 5 (.call "f") := .call 5 "f" rfl
  refine ⟨_, .union 6 [3, 4, 5] (fun h => if h = 3 then _ else if h = 4 then _ else _) rfl
    (by simpa using ⟨htwice, hsame, hcall⟩), ?_⟩
  simp [Tree.warnings, Tree.warningsAll]

/-- A solver with an outdated memory counts the unknown value of the shared term four times, and
fails at the handle that dangles. -/
theorem solve_exact_shared_tree :
    (∃ solution, (usedSolver.solve sharedTree 6).1 = .ok solution ∧ solution.warnings = 4) ∧
      (usedSolver.solve danglingLoop 0).1 = .error (.danglingBox 2) ∧
      danglingLoop.Reaches 0 2 ∧ danglingLoop.get? 2 = none := by
  have hcheck : sharedTree.isRecursive false 6 = .ok false := by
    simp [isRecursive, Checker.check, Checker.reset, sweep, sweepAll, Sweep.pass, sharedTree, get?,
      Term.isCompound, Term.children, Path.count_enter, Path.count_empty, bind, Except.bind, pure,
      Except.pure]
  have hground := Checker.grounded_of_check hcheck
  obtain ⟨solution, hsolve, _, hsame⟩ := (solve_exact usedSolver sharedTree 6).2.2.2.1.mpr
    ⟨hground.intact, hground.not_reaches_endless⟩
  obtain ⟨tree, hexpands, hwarnings⟩ := shared_tree_expands
  have hdangling : (usedSolver.solve danglingLoop 0).1 = .error (.danglingBox 2) := by
    simp [solve, isRecursive, Checker.check, Checker.reset, sweep, sweepAll, danglingLoop, get?,
      Term.isCompound, Term.children, Path.count_enter, Path.count_empty, bind, Except.bind]
  exact ⟨⟨solution, hsolve, (hsame tree hexpands).2.trans hwarnings⟩, hdangling,
    (solve_exact usedSolver danglingLoop 0).2.1 2 hdangling⟩

end AcyclicSolver

end Arena

end StringReach
