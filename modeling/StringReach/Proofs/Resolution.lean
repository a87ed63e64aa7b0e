import StringReach.Analysis.Iteration
import StringReach.Proofs.Acyclic

/-!
# What resolving a point gives

Whatever solver is used, a resolution has the strings that the box unfolds to at the depth of the
settings, and it says that a box is recursive exactly when the box is not grounded (`Resolved`). A
grounded box has one value at all depths (`HasValue`), which the solver of acyclic terms finds; it
is assembled from the values of the children.
-/

namespace StringReach

/-- Two steps succeed together when the second succeeds on what the first gives. -/
theorem bind_eq_ok {ε α β : Type} {first : Except ε α} {second : α → Except ε β} {value : β} :
    first >>= second = .ok value ↔ ∃ middle, first = .ok middle ∧ second middle = .ok value := by
  constructor
  · intro hboth
    cases first with
    | error error => cases hboth
    | ok middle => exact ⟨middle, rfl, hboth⟩
  · rintro ⟨middle, rfl, hsecond⟩
    exact hsecond

/-- Two steps fail together when the first fails, or the second on what the first gives. -/
theorem bind_eq_error {ε α β : Type} {first : Except ε α} {second : α → Except ε β} {error : ε} :
    first >>= second = .error error ↔
      first = .error error ∨ ∃ middle, first = .ok middle ∧ second middle = .error error := by
  cases first with
  | error other =>
      show Except.error other = .error error ↔ _
      simp
  | ok middle =>
      show second middle = .error error ↔ _
      simp

/-- A mapped result comes from a result. -/
theorem map_eq_ok {ε α β : Type} {result : Except ε α} {f : α → β} {value : β}
    (hmap : result.map f = .ok value) : ∃ first, result = .ok first ∧ f first = value := by
  cases result with
  | error error => cases hmap
  | ok first =>
      cases hmap
      exact ⟨first, rfl, rfl⟩

/-- Steps that have all succeeded have each given one of the results. -/
theorem forall₂_of_map_ok {α β ε : Type} {f : α → Except ε β} {items : List α} {parts : List β}
    (hmap : items.mapM f = .ok parts) :
    List.Forall₂ (fun item part => f item = .ok part) items parts := by
  induction items generalizing parts with
  | nil =>
      cases hmap
      exact .nil
  | cons item rest ih =>
      rw [List.mapM_cons] at hmap
      obtain ⟨part, hitem, hmap⟩ := bind_eq_ok.mp hmap
      obtain ⟨others, hrest, hmap⟩ := bind_eq_ok.mp hmap
      cases hmap
      exact .cons hitem (ih hrest)

/-- The results of steps that have all succeeded are those of the items. -/
theorem mem_of_map_ok {α β ε : Type} {f : α → Except ε β} {items : List α} {parts : List β}
    (hmap : items.mapM f = .ok parts) (part : β) :
    part ∈ parts ↔ ∃ item ∈ items, f item = .ok part := by
  have hparts := forall₂_of_map_ok hmap
  clear hmap
  induction hparts with
  | nil => simp
  | cons hitem _ ih => simp [ih, hitem, eq_comm]

/-- Steps that succeed one by one succeed in turn, with results that are related to the items. -/
theorem exists_map_related {α β ε : Type} {f : α → Except ε β} {R : α → β → Prop} {items : List α}
    (hitems : ∀ item ∈ items, ∃ part, f item = .ok part ∧ R item part) :
    ∃ parts, items.mapM f = .ok parts ∧ List.Forall₂ R items parts := by
  induction items with
  | nil => exact ⟨[], rfl, .nil⟩
  | cons item rest ih =>
      obtain ⟨part, hitem, hpart⟩ := hitems item (by simp)
      obtain ⟨parts, hrest, hparts⟩ :=
        ih fun other hmem => hitems other (List.mem_cons_of_mem item hmem)
      refine ⟨part :: parts, ?_, .cons hpart hparts⟩
      rw [List.mapM_cons]
      exact bind_eq_ok.mpr ⟨part, hitem, bind_eq_ok.mpr ⟨parts, hrest, rfl⟩⟩

/-- Steps that succeed one by one succeed in turn. -/
theorem exists_map_ok {α β ε : Type} {f : α → Except ε β} {items : List α}
    (hitems : ∀ item ∈ items, ∃ part, f item = .ok part) : ∃ parts, items.mapM f = .ok parts := by
  obtain ⟨parts, hparts, _⟩ := exists_map_related (R := fun _ _ => True) fun item hmem => by
    obtain ⟨part, hpart⟩ := hitems item hmem
    exact ⟨part, hpart, trivial⟩
  exact ⟨parts, hparts⟩

/-- When steps in turn fail, one of them does. -/
theorem exists_of_map_error {α β ε : Type} {f : α → Except ε β} {items : List α} {error : ε}
    (hmap : items.mapM f = .error error) : ∃ item ∈ items, f item = .error error := by
  induction items with
  | nil => cases hmap
  | cons item rest ih =>
      rw [List.mapM_cons] at hmap
      rcases bind_eq_error.mp hmap with hitem | ⟨part, _, hmap⟩
      · exact ⟨item, by simp, hitem⟩
      · rcases bind_eq_error.mp hmap with hrest | ⟨_, _, hmap⟩
        · obtain ⟨other, hmem, hother⟩ := ih hrest
          exact ⟨other, List.mem_cons_of_mem item hmem, hother⟩
        · cases hmap

/-- The first of some steps fails, or the others do. -/
theorem map_cons_eq_error_iff {α β ε : Type} {f : α → Except ε β} {item : α} {rest : List α}
    {error : ε} :
    (item :: rest).mapM f = .error error ↔
      f item = .error error ∨ (∃ part, f item = .ok part) ∧ rest.mapM f = .error error := by
  simp only [List.mapM_cons, bind_eq_error, pure, Except.pure, reduceCtorEq, and_false,
    exists_false, or_false, exists_and_right]

/-- Steps in turn fail alike when each fails as its partner does. -/
theorem map_error_congr {α β γ ε : Type} {f : α → Except ε β} {g : α → Except ε γ}
    {items : List α}
    (hfails : ∀ item ∈ items, ∀ error, f item = .error error ↔ g item = .error error) (error : ε) :
    items.mapM f = .error error ↔ items.mapM g = .error error := by
  induction items with
  | nil => exact ⟨nofun, nofun⟩
  | cons item rest ih =>
      have hitem := hfails item List.mem_cons_self
      have hok : (∃ part, f item = .ok part) ↔ ∃ part, g item = .ok part := by
        cases hf : f item <;> cases hg : g item <;> simp_all
      rw [map_cons_eq_error_iff, map_cons_eq_error_iff, hitem, hok,
        ih fun other hmem => hfails other (List.mem_cons_of_mem item hmem)]

namespace Arena

/-- A box holds a call. -/
def IsCall (arena : Arena) (h : Handle) : Prop :=
  ∃ callee, arena.get? h = some (.call callee)

/-- A resolution is the right one for a box. -/
structure Resolved (arena : Arena) (settings : ResolverSettings) (root : Handle)
    (resolution : Resolution) : Prop where
  unfolds : arena.Unfolds settings.recursionDepth [] root resolution.solution.language
    resolution.solution.warnings
  recursive : resolution.recursive = false ↔ arena.Grounded (· ≠ .pending) root
  strategy : resolution.strategy =
    if !resolution.recursive && settings.acyclicFastPath then .acyclic else .bounded

/-- A box has a value when every descent from it ends and every unfolding of it gives the value. -/
structure HasValue (arena : Arena) (root : Handle) (solution : Solution) : Prop where
  ends : arena.Grounded (· ≠ .pending) root
  stable : arena.Stable root solution

variable {arena : Arena} {settings : ResolverSettings} {root : Handle} {resolution : Resolution}

/-- A checked box is intact, and the check says whether it is grounded. -/
theorem check_grounded {followCalls recursive : Bool}
    (hcheck : arena.isRecursive followCalls root = .ok recursive) :
    arena.Intact root ∧ (recursive = false ↔ arena.Grounded (· ≠ .pending) root) := by
  constructor
  · intro h hreach
    cases hget : arena.get? h with
    | some term => exact ⟨term, rfl⟩
    | none => exact absurd ⟨h, hreach, .inl hget⟩ (Checker.not_reaches_blocked_of_check hcheck)
  · cases recursive with
    | false => simpa using Checker.grounded_of_check hcheck
    | true =>
        have hendless := Checker.reaches_endless_of_check hcheck
        simpa using fun hground : arena.Grounded (· ≠ .pending) root =>
          hground.not_reaches_endless hendless

/-! ## Checking and resolving intact boxes -/

/-- Of the boxes below an intact one, only calls can be blocked. -/
theorem Intact.reaches_blocked_iff (hintact : arena.Intact root) (followCalls : Bool) :
    arena.ReachesSome (arena.Blocked followCalls) root ↔
      followCalls = true ∧ arena.ReachesSome arena.IsCall root := by
  constructor
  · intro hsome
    obtain ⟨h, hreach, hnone | ⟨hfollow, hcall⟩⟩ := hsome
    · obtain ⟨term, hget⟩ := hintact h hreach
      cases hget.symm.trans hnone
    · exact ⟨hfollow, h, hreach, hcall⟩
  · intro hboth
    obtain ⟨hfollow, h, hreach, hcall⟩ := hboth
    exact ⟨h, hreach, .inr ⟨hfollow, hcall⟩⟩

/-- The checker passes an intact box, unless it follows calls and meets one. -/
theorem Intact.exists_check_iff (hintact : arena.Intact root) (followCalls : Bool) :
    (∃ recursive, arena.isRecursive followCalls root = .ok recursive) ↔
      (followCalls = true → ¬ arena.ReachesSome arena.IsCall root) := by
  rw [← not_and, ← hintact.reaches_blocked_iff]
  constructor
  · intro hpasses
    obtain ⟨recursive, hcheck⟩ := hpasses
    exact Checker.not_reaches_blocked_of_check hcheck
  · intro hopen
    cases hcheck : arena.isRecursive followCalls root with
    | error violation => exact absurd (Checker.reaches_blocked_of_check hcheck) hopen
    | ok recursive => exact ⟨recursive, rfl⟩

/-- A checker that does not follow calls passes every intact box. -/
theorem Intact.exists_check (hintact : arena.Intact root) :
    ∃ recursive, arena.isRecursive false root = .ok recursive :=
  (hintact.exists_check_iff false).mpr fun hfollow => by cases hfollow

/-- Such a checker finds an intact box not to be recursive when every descent from it ends. -/
theorem Intact.check_clear_iff (hintact : arena.Intact root) :
    arena.isRecursive false root = .ok false ↔ arena.Grounded (· ≠ .pending) root := by
  obtain ⟨recursive, hcheck⟩ := hintact.exists_check
  rw [← (check_grounded hcheck).2, hcheck]
  simp

/-- It finds an intact box to be recursive when an endless box lies below. -/
theorem Intact.check_raised_iff (hintact : arena.Intact root) :
    arena.isRecursive false root = .ok true ↔ arena.ReachesSome arena.Endless root := by
  constructor
  · exact Checker.reaches_endless_of_check
  · intro hendless
    obtain ⟨recursive, hcheck⟩ := hintact.exists_check
    cases recursive with
    | true => exact hcheck
    | false => exact absurd hendless (Checker.grounded_of_check hcheck).not_reaches_endless

/-- The solver of acyclic terms finds the value of a box. -/
theorem HasValue.solve_acyclic {solution : Solution} (hvalue : arena.HasValue root solution) :
    arena.solveAcyclic root = .ok solution := by
  obtain ⟨found, hevaluate, hfound⟩ := evaluate_stable hvalue.ends
  rw [Arena.solveAcyclic, hvalue.ends.intact.check_clear_iff.mpr hvalue.ends,
    hvalue.stable.unique hfound]
  exact hevaluate

/-- A box from which every descent ends has a value, which is its solution. -/
theorem Grounded.exists_solution (hground : arena.Grounded (· ≠ .pending) root) :
    ∃ solution, arena.solveAcyclic root = .ok solution ∧ arena.HasValue root solution := by
  obtain ⟨solution, _, hstable⟩ := evaluate_stable hground
  have hvalue : arena.HasValue root solution := ⟨hground, hstable⟩
  exact ⟨solution, hvalue.solve_acyclic, hvalue⟩

namespace HasValue

variable {h : Handle} {term : Term} {parts : List Solution} {solution : Solution}

/-- A box that is made of boxes with values has the value that is assembled from theirs. -/
theorem assemble (hget : arena.get? h = some term) (hterm : term ≠ .pending)
    (hparts : List.Forall₂ arena.HasValue term.children parts) :
    arena.HasValue h (term.assemble parts) where
  ends := by
    refine .intro h term hget hterm ?_
    intro child hmem
    obtain ⟨part, hvalue⟩ := exists_of_forall₂ hparts hmem
    exact hvalue.ends
  stable := .assemble hget (hparts.imp fun _ _ hvalue => hvalue.stable)

/-- A box with a value is made of boxes with values, from which its own is assembled. -/
theorem content (hvalue : arena.HasValue h solution) :
    ∃ term parts, arena.get? h = some term ∧ term ≠ .pending ∧
      List.Forall₂ arena.HasValue term.children parts ∧ solution = term.assemble parts := by
  obtain ⟨term, hget, hterm, hchildren⟩ := hvalue.ends.content
  obtain ⟨parts, _, hparts⟩ :=
    exists_map_related fun child hmem => (hchildren child hmem).exists_solution
  have hsame := hvalue.stable.unique (assemble hget hterm hparts).stable
  exact ⟨term, parts, hget, hterm, hparts, hsame⟩

end HasValue

/-- Only a box with a value has a solution from the solver of acyclic terms. -/
theorem has_value_of_solve_acyclic {solution : Solution}
    (hsolve : arena.solveAcyclic root = .ok solution) : arena.HasValue root solution := by
  have hboth := hsolve
  unfold solveAcyclic at hboth
  obtain ⟨recursive, hcheck, hboth⟩ := bind_eq_ok.mp hboth
  cases recursive with
  | true => cases hboth
  | false =>
      obtain ⟨found, hfound, hvalue⟩ := (Checker.grounded_of_check hcheck).exists_solution
      cases hsolve.symm.trans hfound
      exact hvalue

/-- Whatever solver was used, a resolution has the bounded solution at the depth of the settings. -/
theorem solve_bounded_of_resolve (hresolve : arena.resolve settings root = .ok resolution) :
    arena.solveBounded settings.recursionDepth root = .ok resolution.solution := by
  rw [resolve] at hresolve
  obtain ⟨recursive, hcheck, hresolve⟩ := bind_eq_ok.mp hresolve
  split at hresolve
  · rename_i hfast
    have hacyclic : recursive = false := by
      simpa using (Bool.and_eq_true_iff.mp hfast).1
    -- On a grounded box the shorter way gives the bounded solution.
    obtain ⟨solution, hevaluate, hsame⟩ := solvers_agree ((check_grounded hcheck).2.mp hacyclic)
    rw [hevaluate] at hresolve
    cases hresolve
    exact hsame settings.recursionDepth
  · obtain ⟨solution, hbounded, hresolve⟩ := bind_eq_ok.mp hresolve
    cases hresolve
    exact hbounded

/-- What is resolved is resolved rightly. -/
theorem resolved_of_resolve (hresolve : arena.resolve settings root = .ok resolution) :
    arena.Resolved settings root resolution := by
  have hbounded := solve_bounded_of_resolve hresolve
  rw [resolve] at hresolve
  obtain ⟨recursive, hcheck, hresolve⟩ := bind_eq_ok.mp hresolve
  obtain ⟨hintact, hground⟩ := check_grounded hcheck
  obtain ⟨solution, hsolve, hunfolds⟩ := solve_bounded_unfolds hintact settings.recursionDepth
  cases hsolve.symm.trans hbounded
  split at hresolve
  · rename_i hfast
    obtain ⟨_, _, hresolve⟩ := bind_eq_ok.mp hresolve
    cases hresolve
    exact ⟨hunfolds, hground, (if_pos hfast).symm⟩
  · rename_i hslow
    obtain ⟨_, _, hresolve⟩ := bind_eq_ok.mp hresolve
    cases hresolve
    exact ⟨hunfolds, hground, (if_neg hslow).symm⟩

/-- Once a box has passed the check, it can be resolved. -/
theorem exists_resolve_of_check {recursive : Bool}
    (hcheck : arena.isRecursive settings.followCalls root = .ok recursive) :
    ∃ resolution, arena.resolve settings root = .ok resolution := by
  obtain ⟨hintact, hground⟩ := check_grounded hcheck
  rw [resolve, hcheck]
  change ∃ resolution, (if !recursive && settings.acyclicFastPath then _ else _) = _
  split
  · rename_i hfast
    have hacyclic : recursive = false := by
      simpa using (Bool.and_eq_true_iff.mp hfast).1
    obtain ⟨solution, hevaluate, _⟩ := solvers_agree (hground.mp hacyclic)
    rw [hevaluate]
    exact ⟨_, rfl⟩
  · obtain ⟨solution, hbounded, _⟩ := solve_bounded_unfolds hintact settings.recursionDepth
    rw [hbounded]
    exact ⟨_, rfl⟩

/-- A box can be resolved when the checker passes it. -/
theorem exists_resolve_iff :
    (∃ resolution, arena.resolve settings root = .ok resolution) ↔
      ∃ recursive, arena.isRecursive settings.followCalls root = .ok recursive := by
  constructor
  · intro hresolves
    obtain ⟨resolution, hresolve⟩ := hresolves
    unfold resolve at hresolve
    obtain ⟨recursive, hcheck, _⟩ := bind_eq_ok.mp hresolve
    exact ⟨recursive, hcheck⟩
  · intro hpasses
    obtain ⟨recursive, hcheck⟩ := hpasses
    exact exists_resolve_of_check hcheck

/-- An intact box can be resolved when calls are not followed. -/
theorem exists_resolve (hintact : arena.Intact root) (hcalls : settings.followCalls = false) :
    ∃ resolution, arena.resolve settings root = .ok resolution := by
  rw [exists_resolve_iff, hcalls]
  exact hintact.exists_check

end Arena

/-! ## All tracked points -/

namespace Context

variable {context : Context} {settings : ResolverSettings} {iteration : Nat} {results : Results}

/-- A resolved entry belongs to a tracked point. -/
def ResolvedAt (context : Context) (settings : ResolverSettings) (tracked : Point × Handle)
    (entry : ResolvedPoint) : Prop :=
  entry.point = tracked.1 ∧ context.arena.resolve settings tracked.2 = .ok entry.resolution

/-- The results have one entry for each tracked point, in the order of the points. -/
theorem resolved_at_of_resolve_tracked
    (hresolve : context.resolveTracked settings iteration = .ok results) :
    results.iteration = iteration ∧
      List.Forall₂ (context.ResolvedAt settings) context.tracked.toList results.points := by
  rw [resolveTracked] at hresolve
  obtain ⟨points, hmap, hresolve⟩ := bind_eq_ok.mp hresolve
  cases hresolve
  refine ⟨rfl, (forall₂_of_map_ok hmap).imp ?_⟩
  rintro ⟨point, box⟩ entry hentry
  obtain ⟨resolution, hresolve, hentry⟩ := bind_eq_ok.mp hentry
  cases hentry
  exact ⟨rfl, hresolve⟩

/-- All tracked points can be resolved when their boxes are intact and calls are not followed. -/
theorem exists_resolve_tracked (context : Context) (settings : ResolverSettings) (iteration : Nat)
    (hintact : ∀ (point : Point) (box : Handle), context.tracked[point]? = some box →
      context.arena.Intact box)
    (hcalls : settings.followCalls = false) :
    ∃ results, context.resolveTracked settings iteration = .ok results := by
  have hentries : ∀ tracked ∈ context.tracked.toList, ∃ entry : ResolvedPoint, (do
      let resolution ← context.arena.resolve settings tracked.2
      pure { point := tracked.1, resolution }) = Except.ok entry := by
    rintro ⟨point, box⟩ hmem
    obtain ⟨resolution, hresolve⟩ := Arena.exists_resolve
      (hintact point box (Std.ExtTreeMap.mem_toList_iff_getElem?_eq_some.mp hmem)) hcalls
    exact ⟨_, bind_eq_ok.mpr ⟨resolution, hresolve, rfl⟩⟩
  obtain ⟨points, hmap⟩ := exists_map_ok hentries
  exact ⟨_, bind_eq_ok.mpr ⟨points, hmap, rfl⟩⟩

end Context

end StringReach
