import StringReach.Proofs.Resolution

/-!
# What a warning says

An unfolding without a warning has gone down to the end everywhere and has met neither a box without
content nor an unknown value (`Unfolds.grounded_of_silent`). Conversely nothing below such a box can
raise a warning, whatever the depth (`Grounded.silent`). The count of warnings therefore says
whether a solution is precise, and the recursion checker says the same of the box
(`warnings_eq_zero_exact`).
-/

namespace StringReach

/-- A term at which no precision is lost. -/
def Term.IsDefinite (term : Term) : Prop :=
  term ≠ .pending ∧ term ≠ .top

namespace Arena

/-- A box holds an unknown value. -/
def IsUnknown (arena : Arena) (h : Handle) : Prop :=
  arena.get? h = some .top

variable {arena : Arena} {depth warnings : Nat} {path : List Handle} {h root : Handle}
  {strings : Set String}

/-! ## Unfoldings without a warning -/

/-- An unfolding without a warning ends everywhere at a definite term. -/
theorem Unfolds.grounded_of_silent (hunfolds : arena.Unfolds depth path h strings warnings)
    (hsilent : warnings = 0) : arena.Grounded Term.IsDefinite h := by
  -- The unfolding is finite, and where it was cut off there is a warning.
  induction hunfolds with
  | top | pending | cut => cases hsilent
  | bottom path h hget | terminal path h value hget | parameter path h hget
  | call path h callee hget =>
      refine .intro h _ hget (by simp [Term.IsDefinite]) ?_
      intro child hmem
      cases hmem
  | union path h items strings warnings hget _ _ ih =>
      refine .intro h _ hget (by simp [Term.IsDefinite]) ?_
      intro item hmem
      have hitem := List.sum_eq_zero_iff_forall_eq_nat.mp hsilent _ (List.mem_map_of_mem hmem)
      exact ih item hmem hitem
  | concat path h left right _ _ _ _ hget _ _ _ ihleft ihright =>
      obtain ⟨hleft, hright⟩ := Nat.add_eq_zero_iff.mp hsilent
      refine .intro h _ hget (by simp [Term.IsDefinite]) ?_
      intro child hmem
      rcases List.mem_pair.mp hmem with rfl | rfl
      · exact ihleft hleft
      · exact ihright hright
  | eq path h inner _ _ hget _ _ ih =>
      refine .intro h _ hget (by simp [Term.IsDefinite]) ?_
      intro child hmem
      rw [List.mem_singleton.mp hmem]
      exact ih hsilent

/-- A box below which every descent ends at a definite term unfolds without a warning. -/
theorem Grounded.silent (hground : arena.Grounded Term.IsDefinite h) (hleads : arena.Leads path h)
    (hunfolds : arena.Unfolds depth path h strings warnings) : warnings = 0 := by
  induction hunfolds with
  | bottom | terminal | parameter | call => rfl
  | top path h hget | pending path h hget =>
      obtain ⟨term, hother, hdefinite, _⟩ := hground.content
      cases hget.symm.trans hother
      simp [Term.IsDefinite] at hdefinite
  | cut path h term hget _ hcount =>
      rw [hground.count_eq_zero hleads] at hcount
      cases hcount
  | union path h items strings warnings hget _ _ ih =>
      refine List.sum_eq_zero_iff_forall_eq_nat.mpr ?_
      intro count hmem
      obtain ⟨item, hitem, rfl⟩ := List.mem_map.mp hmem
      have hchild : arena.Child h item := (child_iff hget).mpr hitem
      exact ih item hitem (hground.of_reaches (.single hchild)) (hleads.enter hchild)
  | concat path h left right _ _ _ _ hget _ _ _ ihleft ihright =>
      have hleft : arena.Child h left := (child_iff hget).mpr (by simp [Term.children])
      have hright : arena.Child h right := (child_iff hget).mpr (by simp [Term.children])
      rw [ihleft (hground.of_reaches (.single hleft)) (hleads.enter hleft),
        ihright (hground.of_reaches (.single hright)) (hleads.enter hright)]
  | eq path h inner _ _ hget _ _ ih =>
      have hchild : arena.Child h inner := (child_iff hget).mpr (by simp [Term.children])
      exact ih (hground.of_reaches (.single hchild)) (hleads.enter hchild)

/-! ## The checker on the same box -/

/-- Every descent ends at a definite term when it ends at all and meets no unknown value. -/
theorem grounded_definite_iff :
    arena.Grounded Term.IsDefinite root ↔
      arena.Grounded (· ≠ .pending) root ∧ ¬ arena.ReachesSome arena.IsUnknown root := by
  constructor
  · intro hground
    constructor
    · induction hground with
      | intro h term hget hdefinite _ ih => exact .intro h term hget hdefinite.1 ih
    · intro hsome
      obtain ⟨h, hreach, hunknown⟩ := hsome
      obtain ⟨term, hget, hdefinite, _⟩ := (hground.of_reaches hreach).content
      exact hdefinite.2 (Option.some.inj (hget.symm.trans hunknown))
  · intro hboth
    obtain ⟨hground, hknown⟩ := hboth
    induction hground with
    | intro h term hget hcontent _ ih =>
        refine .intro h term hget ⟨hcontent, ?_⟩ ?_
        · intro htop
          subst htop
          exact hknown ⟨h, .refl, hget⟩
        · intro child hmem
          exact ih child hmem fun hsome =>
            hknown (hsome.of_child ((child_iff hget).mpr hmem))

/-- The unfolding of an intact box has no warning when the checker finds the box not to be
recursive and no unknown value lies below it. -/
theorem Unfolds.silent_iff (hunfolds : arena.Unfolds depth [] root strings warnings)
    (hintact : arena.Intact root) :
    warnings = 0 ↔
      arena.isRecursive false root = .ok false ∧ ¬ arena.ReachesSome arena.IsUnknown root := by
  rw [hintact.check_clear_iff, ← grounded_definite_iff]
  exact ⟨hunfolds.grounded_of_silent, fun hground => hground.silent leads_nil hunfolds⟩

/-- At every depth, the bounded solver gives an intact box a solution without warnings exactly when
a new checker finds the box not to be recursive and no unknown value can be reached from it.
Resolving the box fails only when calls are followed and one is reached; otherwise the resolution
has no warnings under the same condition, whichever solver it comes from. -/
theorem warnings_eq_zero_exact (arena : Arena) (root : Handle) (hintact : arena.Intact root) :
    (∀ depth, ∃ solution, arena.solveBounded depth root = .ok solution ∧
      (solution.warnings = 0 ↔
        arena.isRecursive false root = .ok false ∧
          ¬ arena.ReachesSome arena.IsUnknown root)) ∧
    ∀ settings : ResolverSettings,
      ((∃ resolution, arena.resolve settings root = .ok resolution) ↔
        (settings.followCalls = true → ¬ arena.ReachesSome arena.IsCall root)) ∧
      ∀ resolution, arena.resolve settings root = .ok resolution →
        (resolution.solution.warnings = 0 ↔
          arena.isRecursive false root = .ok false ∧
            ¬ arena.ReachesSome arena.IsUnknown root) := by
  constructor
  · intro depth
    obtain ⟨solution, hsolve, hunfolds⟩ := solve_bounded_unfolds hintact depth
    exact ⟨solution, hsolve, hunfolds.silent_iff hintact⟩
  · intro settings
    constructor
    · rw [exists_resolve_iff, hintact.exists_check_iff]
    · intro resolution hresolve
      exact (resolved_of_resolve hresolve).unfolds.silent_iff hintact

/-- The shared tree is not recursive, and the unknown value in it is enough for a warning. -/
theorem warnings_eq_zero_exact_shared_tree :
    sharedTree.Intact 6 ∧
      (∀ depth, ∃ solution, sharedTree.solveBounded depth 6 = .ok solution ∧
        solution.warnings ≠ 0) ∧
      ∃ resolution, sharedTree.resolve {} 6 = .ok resolution ∧
        resolution.solution.warnings ≠ 0 := by
  have hintact : sharedTree.Intact 6 := intact_of_children_lt (by decide) (by decide)
  have hthree : sharedTree.Child 6 3 := ⟨.union [3, 4, 5], rfl, by decide⟩
  have htwo : sharedTree.Child 3 2 := ⟨.concat 2 2, rfl, by decide⟩
  have hone : sharedTree.Child 2 1 := ⟨.union [0, 1], rfl, by decide⟩
  have hunknown : sharedTree.ReachesSome sharedTree.IsUnknown 6 :=
    ⟨1, .head hthree (.head htwo (.single hone)), rfl⟩
  obtain ⟨hbounded, hresolve⟩ := warnings_eq_zero_exact sharedTree 6 hintact
  refine ⟨hintact, ?_, ?_⟩
  · intro depth
    obtain ⟨solution, hsolve, hsilent⟩ := hbounded depth
    exact ⟨solution, hsolve, fun hzero => (hsilent.mp hzero).2 hunknown⟩
  · obtain ⟨hresolves, hsilent⟩ := hresolve {}
    obtain ⟨resolution, hresolution⟩ := hresolves.mpr (by simp)
    exact ⟨resolution, hresolution, fun hzero => ((hsilent _ hresolution).mp hzero).2 hunknown⟩

end Arena

end StringReach
