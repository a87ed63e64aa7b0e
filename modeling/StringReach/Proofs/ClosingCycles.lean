import StringReach.Proofs.Growth
import StringReach.Proofs.Locality

/-!
# When adding an alternative closes a cycle

A new alternative of a box closes a cycle when the box lies below the alternative, and only then, if
neither was recursive before (`Grows.on_cycle`, `Grows.has_value`). Otherwise the value of the
alternative is merged into that of the box, also when the content of the box had to be moved. Boxes
from which the target cannot be reached do not notice the change (`Grows.agree_below`).
-/

namespace StringReach.Arena

/-- A box holds a union that lists an alternative already. -/
def Lists (arena : Arena) (target alternative : Handle) : Prop :=
  ∃ items, arena.get? target = some (.union items) ∧ alternative ∈ items

variable {arena arena' : Arena} {target alternative h root : Handle} {before other : Solution}
  {followCalls : Bool}

/-- What a union lists is not added again. -/
theorem grow_union_of_lists {term : Term} (hlists : arena.Lists target alternative)
    (halternative : arena.get? alternative = some term) :
    arena.growUnion target alternative = .ok arena := by
  obtain ⟨items, htarget, hmem⟩ := hlists
  rw [grow_union_union halternative htarget, if_pos (by simpa using hmem)]

/-- An alternative that exists can be added to every box. -/
theorem exists_grow_union {old term : Term} (htarget : arena.get? target = some old)
    (halternative : arena.get? alternative = some term) :
    ∃ arena', arena.growUnion target alternative = .ok arena' := by
  by_cases hunion : ∃ items, old = .union items
  · obtain ⟨items, rfl⟩ := hunion
    exact ⟨_, grow_union_union halternative htarget⟩
  · exact ⟨_, grow_union_of_ne_union halternative htarget fun items heq => hunion ⟨items, heq⟩⟩

namespace Grows

/-- The box lists the alternative afterwards. -/
theorem lists (hgrows : arena.Grows target alternative arena') :
    arena'.Lists target alternative := by
  cases hgrows with
  | listed items htarget hmem => exact ⟨items, htarget, hmem⟩
  | append items htarget =>
      exact ⟨_, get?_set_self (lt_size_of_get? htarget) _, by simp⟩
  | move old htarget hold =>
      exact ⟨_, ((Grows.move old htarget hold).get?_moved htarget hold).1, by simp⟩

/-- Nothing happens to a box that listed the alternative before. -/
theorem eq_of_lists (hgrows : arena.Grows target alternative arena')
    (hlists : arena.Lists target alternative) : arena' = arena := by
  obtain ⟨items, hget, hmem⟩ := hlists
  cases hgrows with
  | listed => rfl
  | append items' htarget hnew =>
      cases hget.symm.trans htarget
      exact absurd hmem hnew
  | move old htarget hold =>
      cases hget.symm.trans htarget
      exact absurd rfl (hold items)

/-! ## Cycles -/

/-- The box lies on a cycle afterwards when it lay below the alternative. -/
theorem on_cycle (hgrows : arena.Grows target alternative arena')
    (hreach : arena.Reaches alternative target) : arena'.OnCycle target := by
  obtain ⟨items, hget, hmem⟩ := hgrows.lists
  have hchild : arena'.Child target alternative := ⟨_, hget, hmem⟩
  exact .head' hchild (hgrows.extended.reaches hreach)

/-- A call that lies below a box afterwards lay below it, the target or the alternative before. -/
theorem reaches_call (hgrows : arena.Grows target alternative arena')
    (htops : ∀ top ∈ [root, target, alternative], arena.Intact top)
    (hcall : arena'.ReachesSome arena'.IsCall root) :
    ∃ top ∈ [root, target, alternative], arena.ReachesSome arena.IsCall top := by
  obtain ⟨h, hreach, callee, hget⟩ := hcall
  rcases hgrows.reaches_cases hreach with ⟨top, hmem, hbelow⟩ | ⟨_, hmoved⟩
  · obtain ⟨term, hterm⟩ := htops top hmem h hbelow
    refine ⟨top, hmem, h, hbelow, callee, ?_⟩
    -- The only change that leaves a call in a box is none.
    cases hgrows.kept hterm with
    | same _ hafter => exact hterm.trans (hafter.symm.trans hget)
    | longer _ _ hafter | moved _ _ _ _ hafter | filled _ _ _ hafter =>
        cases hafter.symm.trans hget
  · exact ⟨target, by simp, target, .refl, callee, hmoved.symm.trans hget⟩

/-- When the target and the alternative pass the check, the target passes it afterwards. -/
theorem exists_check {first second : Bool} (hgrows : arena.Grows target alternative arena')
    (htarget : arena.isRecursive followCalls target = .ok first)
    (halternative : arena.isRecursive followCalls alternative = .ok second) :
    ∃ recursive, arena'.isRecursive followCalls target = .ok recursive := by
  have hintact := (check_grounded htarget).1
  have hintact' := (check_grounded halternative).1
  rw [(hgrows.intact hintact hintact' hintact).exists_check_iff]
  intro hfollow hcall
  obtain ⟨top, hmem, hbefore⟩ := hgrows.reaches_call (by simpa using ⟨hintact, hintact'⟩) hcall
  have hpasses : ∃ recursive, arena.isRecursive followCalls top = .ok recursive := by
    simp only [List.mem_cons, List.not_mem_nil, or_false] at hmem
    rcases hmem with rfl | rfl | rfl
    · exact ⟨first, htarget⟩
    · exact ⟨first, htarget⟩
    · exact ⟨second, halternative⟩
  obtain ⟨recursive, hcheck⟩ := hpasses
  exact ((check_grounded hcheck).1.exists_check_iff followCalls).mp ⟨_, hcheck⟩ hfollow hbefore

/-! ## Values -/

/-- A box from which the target cannot be reached is as before, and so is all that lies below. -/
theorem agree_below (hgrows : arena.Grows target alternative arena') (hintact : arena.Intact h)
    (hapart : ¬ arena.Reaches h target) : arena.AgreeBelow arena' h := by
  intro box hreach
  obtain ⟨term, hget⟩ := hintact box hreach
  rw [hget]
  refine hgrows.get?_of_ne hget ?_
  intro heq
  subst heq
  exact hapart hreach

/-- A value is kept by every box from which the target cannot be reached. -/
theorem has_value_of_apart (hgrows : arena.Grows target alternative arena')
    (hvalue : arena.HasValue h other) (hapart : ¬ arena.Reaches h target) :
    arena'.HasValue h other :=
  (hgrows.agree_below hvalue.ends.intact hapart).has_value hvalue

/-- The value of a new alternative from which the target cannot be reached is merged into that of
the target. -/
theorem has_value (hgrows : arena.Grows target alternative arena')
    (hnew : ¬ arena.Lists target alternative) (hbefore : arena.HasValue target before)
    (hother : arena.HasValue alternative other) (hapart : ¬ arena.Reaches alternative target) :
    arena'.HasValue target (before.merge other) := by
  obtain ⟨old, parts, hold, hterm, hparts, rfl⟩ := hbefore.content
  have hother' : arena'.HasValue alternative other := hgrows.has_value_of_apart hother hapart
  -- The target is not below its own children, so they keep their values too.
  have hparts' : List.Forall₂ arena'.HasValue old.children parts := by
    have hmembers : List.Forall₂ (fun child part =>
        child ∈ old.children ∧ arena.HasValue child part) old.children parts :=
      (List.forall₂_and_left _ _).mpr ⟨fun _ hmem => hmem, hparts⟩
    refine hmembers.imp ?_
    intro child part hchild
    refine hgrows.has_value_of_apart hchild.2 fun hback => ?_
    exact hbefore.ends.not_on_cycle (.head' ((child_iff hold).mpr hchild.1) hback)
  by_cases hunion : ∃ items, old = .union items
  · obtain ⟨items, rfl⟩ := hunion
    cases hgrows with
    | listed items' htarget hmem => exact absurd ⟨items', htarget, hmem⟩ hnew
    | append items' htarget =>
        cases hold.symm.trans htarget
        show HasValue _ target ((Solution.mergeAll parts).merge other)
        rw [← Solution.merge_all_concat]
        exact .assemble (get?_set_self (lt_size_of_get? hold) _) (by simp)
          (List.rel_append hparts' (.cons hother' .nil))
    | move old' htarget hother =>
        cases hold.symm.trans htarget
        exact absurd rfl (hother items)
  · obtain ⟨hpair, hmoved⟩ := hgrows.get?_moved hold fun items heq => hunion ⟨items, heq⟩
    have hbelow : arena'.HasValue arena.size (old.assemble parts) :=
      .assemble hmoved hterm hparts'
    rw [← Solution.merge_all_pair]
    exact .assemble hpair (by simp) (.cons hbelow (.cons hother' .nil))

/-- Every descent from the target still ends, unless the target can be reached from the
alternative. -/
theorem ends_iff (hgrows : arena.Grows target alternative arena')
    (hbefore : arena.HasValue target before) (hother : arena.HasValue alternative other) :
    arena'.Grounded (· ≠ .pending) target ↔ ¬ arena.Reaches alternative target := by
  constructor
  · intro hends hreach
    exact hends.not_on_cycle (hgrows.on_cycle hreach)
  · intro hapart
    by_cases hlists : arena.Lists target alternative
    · rw [hgrows.eq_of_lists hlists]
      exact hbefore.ends
    · exact (hgrows.has_value hlists hbefore hother hapart).ends

end Grows

/-- A box that is not recursive can be added to another that is not, and adding it again changes
nothing. The target is recursive afterwards exactly if it can be reached from the alternative. If it
cannot, it has its old solution, with that of the alternative merged into it unless it was a union
that listed the alternative already. Each box from which the target cannot be reached keeps its
solution, whichever solver it comes from. -/
theorem grow_union_closes_or_merges (arena : Arena) (followCalls : Bool)
    (target alternative : Handle) (htarget : arena.isRecursive followCalls target = .ok false)
    (halternative : arena.isRecursive followCalls alternative = .ok false) :
    ∃ arena', arena.growUnion target alternative = .ok arena' ∧
      (∃ recursive, arena'.isRecursive followCalls target = .ok recursive ∧
        (recursive = true ↔ arena.Reaches alternative target)) ∧
      (¬ arena.Reaches alternative target → ∃ before other,
        arena.solveAcyclic target = .ok before ∧ arena.solveAcyclic alternative = .ok other ∧
        (arena.Lists target alternative → arena'.solveAcyclic target = .ok before) ∧
        (¬ arena.Lists target alternative →
          arena'.solveAcyclic target = .ok (before.merge other))) ∧
      (∀ h solution, ¬ arena.Reaches h target →
        (arena.solveAcyclic h = .ok solution → arena'.solveAcyclic h = .ok solution) ∧
        ∀ depth, arena.solveBounded depth h = .ok solution →
          arena'.solveBounded depth h = .ok solution) ∧
      arena'.growUnion target alternative = .ok arena' := by
  obtain ⟨before, hbefore, hvalue⟩ := (Checker.grounded_of_check htarget).exists_solution
  obtain ⟨other, hother, hvalue'⟩ := (Checker.grounded_of_check halternative).exists_solution
  obtain ⟨old, hold⟩ := hvalue.ends.intact target .refl
  obtain ⟨term, hterm⟩ := hvalue'.ends.intact alternative .refl
  obtain ⟨arena', hgrow⟩ := exists_grow_union hold hterm
  obtain ⟨_, hgrows⟩ := grows_of_grow_union hgrow
  refine ⟨arena', hgrow, ?_, ?_, ?_, ?_⟩
  · obtain ⟨recursive, hcheck⟩ := hgrows.exists_check htarget halternative
    refine ⟨recursive, hcheck, ?_⟩
    have hclear : recursive = false ↔ ¬ arena.Reaches alternative target :=
      (check_grounded hcheck).2.trans (hgrows.ends_iff hvalue hvalue')
    rw [← Bool.not_eq_true] at hclear
    exact not_iff_not.mp hclear
  · intro hapart
    refine ⟨before, other, hbefore, hother, ?_, ?_⟩
    · intro hlists
      rw [hgrows.eq_of_lists hlists, hbefore]
    · intro hnew
      exact (hgrows.has_value hnew hvalue hvalue' hapart).solve_acyclic
  · intro h solution hapart
    constructor
    · intro hsolve
      exact (hgrows.has_value_of_apart (has_value_of_solve_acyclic hsolve) hapart).solve_acyclic
    · intro depth hsolve
      have hintact := intact_of_solve_bounded hsolve
      rw [(hgrows.agree_below hintact hapart).solve_bounded_eq hintact, hsolve]
  · obtain ⟨term', hterm'⟩ := hgrows.extended.valid alternative term hterm
    exact grow_union_of_lists hgrows.lists hterm'

/-- The concatenation of the shared tree moves to a new box. A call is merged into it, while the
whole tree, in which it is shared, closes a cycle. -/
theorem grow_union_closes_or_merges_shared_tree :
    sharedTree.isRecursive false 3 = .ok false ∧ sharedTree.isRecursive false 5 = .ok false ∧
      sharedTree.isRecursive false 6 = .ok false ∧
      (∃ arena' before other, sharedTree.growUnion 3 5 = .ok arena' ∧
        arena'.isRecursive false 3 = .ok false ∧
        sharedTree.solveAcyclic 3 = .ok before ∧ sharedTree.solveAcyclic 5 = .ok other ∧
        arena'.solveAcyclic 3 = .ok (before.merge other) ∧
        arena'.growUnion 3 5 = .ok arena') ∧
      ∃ arena', sharedTree.growUnion 3 6 = .ok arena' ∧ arena'.isRecursive false 3 = .ok true := by
  have hsix : sharedTree.isRecursive false 6 = .ok false := by
    simp [isRecursive, Checker.check, Checker.reset, sweep, sweepAll, Sweep.pass, sharedTree, get?,
      Term.isCompound, Term.children, Path.count_enter, Path.count_empty, bind, Except.bind, pure,
      Except.pure]
  -- What lies below a box that is not recursive is not recursive either.
  have hbelow : ∀ h, sharedTree.Reaches 6 h → sharedTree.isRecursive false h = .ok false := by
    intro h hreach
    have hground := (Checker.grounded_of_check hsix).of_reaches hreach
    exact hground.intact.check_clear_iff.mpr hground
  have hreach : sharedTree.Reaches 6 3 := .single ⟨.union [3, 4, 5], rfl, by decide⟩
  have hthree := hbelow 3 hreach
  have hfive := hbelow 5 (.single ⟨.union [3, 4, 5], rfl, by decide⟩)
  have hapart : ¬ sharedTree.Reaches 5 3 := by
    intro hreach
    rcases hreach.cases_head with heq | ⟨child, ⟨term, hget, hmem⟩, _⟩
    · cases heq
    · cases hget
      cases hmem
  have hnew : ¬ sharedTree.Lists 3 5 := by
    intro hlists
    obtain ⟨items, hget, _⟩ := hlists
    cases hget
  refine ⟨hthree, hfive, hsix, ?_, ?_⟩
  · obtain ⟨arena', hgrow, ⟨recursive, hcheck, hrecursive⟩, hmerged, _, hagain⟩ :=
      grow_union_closes_or_merges sharedTree false 3 5 hthree hfive
    obtain ⟨before, other, hbefore, hother, _, hsolve⟩ := hmerged hapart
    have hclear : recursive = false := by simpa [hapart] using hrecursive
    subst hclear
    exact ⟨arena', before, other, hgrow, hcheck, hbefore, hother, hsolve hnew, hagain⟩
  · obtain ⟨arena', hgrow, ⟨recursive, hcheck, hrecursive⟩, _⟩ :=
      grow_union_closes_or_merges sharedTree false 3 6 hthree hsix
    rw [hrecursive.mpr hreach] at hcheck
    exact ⟨arena', hgrow, hcheck⟩

end StringReach.Arena
