import Mathlib.Logic.Function.Iterate
import StringReach.Proofs.Violations

/-!
# Traversals that tolerate cycles

The bounded solver and the writer of terms walk any graph of boxes to an end. One level of such a
traversal is what it does at a box, given what it does at the boxes inside (`unrollLevel`,
`renderLevel`). A level goes down only where the path leaves room, so as many levels as there is
room are enough, and nothing below them is ever asked for (`iterate_level`).

On the way every box below the root is met: a box that is not entered stands on the path, and then
it was entered before. A traversal that succeeds has therefore met no handle that dangles anywhere
(`intact_of_passes`), although it leaves out parts that it has seen.
-/

namespace StringReach.Arena

/-- The outcome of a traversal that only handles can break: it succeeds exactly when no handle below
the root dangles, and otherwise it names one that does. -/
structure FailsOnlyAtDangling {α : Type} (arena : Arena) (root : Handle)
    (outcome : Except Violation α) : Prop where
  succeeds : (∃ value, outcome = .ok value) ↔ arena.Intact root
  fails : ∀ violation, outcome = .error violation →
    ∃ h, violation = .danglingBox h ∧ arena.Dangles root h

/-- Visit several boxes in turn, each with the state that the visits before it have left. -/
def inTurn {σ α : Type} (visit : σ → Handle → Except Violation (α × σ)) (state : σ) :
    List Handle → Except Violation (List α × σ)
  | [] => .ok ([], state)
  | h :: rest => do
      let (first, state) ← visit state h
      let (others, state) ← inTurn visit state rest
      pure (first :: others, state)

/-- One level of the bounded solver: what it does at a box when `below` solves the boxes inside. -/
def unrollLevel (arena : Arena) (depth : Nat)
    (below : Path → Unrolling → Handle → Except Violation (Solution × Unrolling)) (path : Path)
    (state : Unrolling) (h : Handle) : Except Violation (Solution × Unrolling) :=
  match arena.get? h with
  | none => .error (.danglingBox h)
  | some term =>
      if !term.isCompound then
        .ok (term.assemble [], state)
      else match state.known[h]? with
        | some solution => .ok (solution, state)
        | none =>
            let revisits := if 0 < path.count h then state.revisits + 1 else state.revisits
            if path.count h ≤ depth then do
              let inside := { state with revisits := revisits }
              let (parts, after) ← inTurn (below (path.enter h)) inside term.children
              let solution := term.assemble parts
              if after.revisits = revisits then
                pure (solution, { after with known := after.known.insert h solution })
              else
                pure (solution, after)
            else
              .ok (.cut, { state with revisits := revisits })

/-- One level of writing out: what is done at a box when `below` writes out the boxes inside. -/
def renderLevel (arena : Arena) (showHandles : Bool)
    (below : Path → Handle → Except Violation String) (path : Path) (h : Handle) :
    Except Violation String :=
  match arena.get? h with
  | none => .error (.danglingBox h)
  | some term =>
      if !term.isCompound then
        .ok (term.renderWith [])
      else if 0 < path.count h then
        .ok h.text
      else do
        let parts ← term.children.mapM (below (path.enter h))
        let text := term.renderWith parts
        pure (if showHandles then h.text ++ ":" ++ text else text)

/-- A path that holds each of its boxes once, entered where `passes` holds. -/
def Entered (passes : List Handle → Handle → Prop) : List Handle → Prop
  | [] => True
  | h :: path => passes path h ∧ h ∉ path ∧ Entered passes path

variable {arena : Arena} {depth : Nat} {showHandles : Bool} {root h : Handle}

/-! ## Levels -/

/-- There is room for every box as often as a path may hold it. -/
theorem room_empty (arena : Arena) (depth : Nat) :
    arena.room depth .empty = (depth + 1) * arena.size := by
  unfold room
  simp only [Path.count_empty, Nat.sub_zero, List.map_const', List.length_range]
  rw [← List.sum_eq_foldr, List.sum_replicate_nat, Nat.mul_comm]

/-- A traversal whose levels look only at paths with less room needs no more levels than there is
room for, whatever stands below them. -/
theorem iterate_level {β : Type} {level : (Path → β) → Path → β} {run : Path → β}
    (hrun : ∀ path, level run path = run path)
    (hlevel : ∀ below below' path,
      (∀ inner, arena.room depth inner < arena.room depth path → below inner = below' inner) →
      level below path = level below' path)
    (below : Path → β) (levels : Nat) (path : Path) (hlevels : arena.room depth path < levels) :
    level^[levels] below path = run path := by
  induction levels generalizing path with
  | zero => omega
  | succ levels ih =>
      rw [Function.iterate_succ_apply', ← hrun path]
      apply hlevel
      intro inner hroom
      exact ih inner (by omega)

/-- Solving several boxes is solving them in turn. -/
theorem unroll_all_eq (path : Path) (state : Unrolling) (items : List Handle) :
    arena.unrollAll depth path state items = inTurn (arena.unroll depth path) state items := by
  induction items generalizing state with
  | nil => rw [unrollAll, inTurn]
  | cons h rest ih => simp only [unrollAll, inTurn, ih]

/-- Writing out several boxes is writing them out in turn. -/
theorem render_all_eq (path : Path) (items : List Handle) :
    arena.renderAll showHandles path items =
      items.mapM (arena.renderBelow showHandles path) := by
  induction items with
  | nil => rw [renderAll]; rfl
  | cons h rest ih => rw [renderAll, List.mapM_cons, ih]

/-- The bounded solver is made of its levels. -/
theorem unroll_level_unroll (path : Path) :
    arena.unrollLevel depth (arena.unroll depth) path = arena.unroll depth path := by
  funext state h
  rw [unroll]
  unfold unrollLevel
  cases hget : arena.get? h with
  | none => rfl
  | some term =>
      have hall : inTurn (arena.unroll depth (path.enter h)) =
          arena.unrollAll depth (path.enter h) := by
        funext state items
        rw [unroll_all_eq]
      rw [hall]
      rfl

/-- A level of the bounded solver looks only at paths with less room. -/
theorem unroll_level_congr
    {below below' : Path → Unrolling → Handle → Except Violation (Solution × Unrolling)}
    {path : Path}
    (hbelow : ∀ inner, arena.room depth inner < arena.room depth path →
      below inner = below' inner) :
    arena.unrollLevel depth below path = arena.unrollLevel depth below' path := by
  funext state h
  unfold unrollLevel
  cases hget : arena.get? h with
  | none => rfl
  | some term =>
      by_cases hcount : path.count h ≤ depth
      · rw [hbelow _ (room_enter_lt (lt_size_of_get? hget) hcount)]
      · simp only [if_neg hcount]

/-- Writing out is made of its levels. -/
theorem render_level_render_below (path : Path) :
    arena.renderLevel showHandles (arena.renderBelow showHandles) path =
      arena.renderBelow showHandles path := by
  funext h
  rw [renderBelow]
  unfold renderLevel
  cases hget : arena.get? h with
  | none => rfl
  | some term => simp only [render_all_eq, dite_eq_ite]

/-- A level of writing out looks only at paths with less room. -/
theorem render_level_congr {below below' : Path → Handle → Except Violation String} {path : Path}
    (hbelow : ∀ inner, arena.room 0 inner < arena.room 0 path → below inner = below' inner) :
    arena.renderLevel showHandles below path = arena.renderLevel showHandles below' path := by
  funext h
  unfold renderLevel
  cases hget : arena.get? h with
  | none => rfl
  | some term =>
      by_cases hcount : 0 < path.count h
      · simp only [if_pos hcount]
      · rw [hbelow _ (room_enter_lt (lt_size_of_get? hget) (by omega))]

/-! ## Every box is met -/

/-- A box of a path was entered on a part of it. -/
theorem Entered.of_mem {passes : List Handle → Handle → Prop} {path : List Handle}
    (hentered : Entered passes path) (hmem : h ∈ path) : ∃ path', Entered passes (h :: path') := by
  induction path with
  | nil => cases hmem
  | cons first rest ih =>
      rcases List.mem_cons.mp hmem with rfl | hmem
      · exact ⟨rest, hentered⟩
      · exact ih hentered.2.2 hmem

/-- A traversal that passes its root, and all children of a box that it enters, has met every box
below the root. -/
theorem intact_of_passes (passes : List Handle → Handle → Prop)
    (hpasses : ∀ path h, passes path h → ∃ term, arena.get? h = some term ∧
      (h ∉ path → ∀ child ∈ term.children, passes (h :: path) child))
    (hroot : passes [] root) : arena.Intact root := by
  have hmet : ∀ h, arena.Reaches root h → ∃ path, Entered passes (h :: path) := by
    intro h hreach
    induction hreach with
    | refl => exact ⟨[], hroot, List.not_mem_nil, trivial⟩
    | @tail h child _ hchild ih =>
        obtain ⟨path, hentered⟩ := ih
        obtain ⟨term, hget, hinside⟩ := hpasses path h hentered.1
        have hnext : passes (h :: path) child :=
          hinside hentered.2.1 child ((child_iff hget).mp hchild)
        -- A child on the path was entered before, any other child is entered now.
        by_cases hmem : child ∈ h :: path
        · exact hentered.of_mem hmem
        · exact ⟨h :: path, hnext, hmem, hentered⟩
  intro h hreach
  obtain ⟨path, hpassed, _⟩ := hmet h hreach
  obtain ⟨term, hget, _⟩ := hpasses path h hpassed
  exact ⟨term, hget⟩

/-- An unfolding that enters a box passes all its children. -/
theorem Unfolds.passes {path : List Handle} {strings : Set String} {warnings : Nat}
    (hunfolds : arena.Unfolds depth path h strings warnings) :
    ∃ term, arena.get? h = some term ∧ (h ∉ path → ∀ child ∈ term.children,
      ∃ strings warnings, arena.Unfolds depth (h :: path) child strings warnings) := by
  cases hunfolds with
  | top _ _ hget | bottom _ _ hget | terminal _ _ _ hget | parameter _ _ hget | call _ _ _ hget
  | pending _ _ hget => exact ⟨_, hget, by simp [Term.children]⟩
  | cut _ _ term hget _ hcount =>
      refine ⟨term, hget, fun hnew => ?_⟩
      rw [List.count_eq_zero.mpr hnew] at hcount
      omega
  | union _ _ items parts counts hget _ hitems =>
      exact ⟨_, hget, fun _ item hmem => ⟨parts item, counts item, hitems item hmem⟩⟩
  | concat _ _ left right _ _ _ _ hget _ hleft hright =>
      refine ⟨_, hget, fun _ child hmem => ?_⟩
      rcases List.mem_pair.mp hmem with rfl | rfl
      · exact ⟨_, _, hleft⟩
      · exact ⟨_, _, hright⟩
  | eq _ _ inner _ _ hget _ hinner =>
      refine ⟨_, hget, fun _ child hmem => ?_⟩
      rw [List.mem_singleton.mp hmem]
      exact ⟨_, _, hinner⟩

/-- A box that unfolds is intact. -/
theorem Unfolds.intact {strings : Set String} {warnings : Nat}
    (hunfolds : arena.Unfolds depth [] root strings warnings) : arena.Intact root := by
  refine intact_of_passes
    (fun path h => ∃ strings warnings, arena.Unfolds depth path h strings warnings) ?_
    ⟨_, _, hunfolds⟩
  intro path h hpassed
  obtain ⟨strings, warnings, hpassed⟩ := hpassed
  exact hpassed.passes

/-- Writing out a box that is entered passes all its children. -/
theorem render_below_passes {path : Path} {text : String}
    (hrender : arena.renderBelow showHandles path h = .ok text) :
    ∃ term, arena.get? h = some term ∧ (h ∉ path.boxes → ∀ child ∈ term.children,
      ∃ text, arena.renderBelow showHandles (path.enter h) child = .ok text) := by
  rw [renderBelow] at hrender
  split at hrender
  · cases hrender
  · rename_i term hget
    refine ⟨term, hget, fun hnew child hmem => ?_⟩
    split at hrender
    · rename_i hleaf
      rw [Term.children_eq_nil_of_not_compound (by simpa using hleaf)] at hmem
      cases hmem
    · split at hrender
      · rename_i hcount
        rw [Path.count_eq, List.count_eq_zero.mpr hnew] at hcount
        omega
      · obtain ⟨parts, hall, _⟩ := bind_eq_ok.mp hrender
        rw [render_all_eq] at hall
        obtain ⟨part, _, hpart⟩ := exists_partner (forall₂_of_map_ok hall) hmem
        exact ⟨part, hpart⟩

/-! ## The two traversals -/

/-- The bounded solver fails only at a handle that dangles. -/
theorem solve_bounded_fails_only_at_dangling (arena : Arena) (depth : Nat) (root : Handle) :
    arena.FailsOnlyAtDangling root (arena.solveBounded depth root) where
  succeeds := by
    constructor
    · intro hsucceeds
      obtain ⟨solution, hsolve⟩ := hsucceeds
      rcases solve_bounded_outcome arena depth root with ⟨_, _, hunfolds⟩ | ⟨other, hfails, _⟩
      · exact hunfolds.intact
      · cases hsolve.symm.trans hfails
    · intro hintact
      obtain ⟨solution, hsolve, _⟩ := solve_bounded_unfolds hintact depth
      exact ⟨solution, hsolve⟩
  fails violation hfails := by
    rcases solve_bounded_outcome arena depth root with ⟨_, hsolve, _⟩ | ⟨other, hother, hdangles⟩
    · cases hsolve.symm.trans hfails
    · exact ⟨other, Except.error.inj (hfails.symm.trans hother), hdangles⟩

/-- A box that has a solution is intact. -/
theorem intact_of_solve_bounded {solution : Solution}
    (hsolve : arena.solveBounded depth root = .ok solution) : arena.Intact root :=
  (solve_bounded_fails_only_at_dangling arena depth root).succeeds.mp ⟨solution, hsolve⟩

/-- A box has the solution that it unfolds to. -/
theorem solve_bounded_of_unfolds {solution : Solution}
    (hunfolds : arena.Unfolds depth [] root solution.language solution.warnings) :
    arena.solveBounded depth root = .ok solution := by
  obtain ⟨found, hsolve, hfound⟩ := solve_bounded_unfolds hunfolds.intact depth
  obtain ⟨hlanguage, hwarnings⟩ := hfound.deterministic hunfolds
  rw [hsolve, Solution.ext_language hlanguage hwarnings]

/-- Writing out fails only at a handle that dangles. -/
theorem render_fails_only_at_dangling (arena : Arena) (showHandles : Bool) (root : Handle) :
    arena.FailsOnlyAtDangling root (arena.render showHandles root) where
  succeeds := by
    constructor
    · intro hsucceeds
      obtain ⟨text, hrender⟩ := hsucceeds
      refine intact_of_passes
        (fun boxes h => ∃ path : Path, path.boxes = boxes ∧
          ∃ text, arena.renderBelow showHandles path h = .ok text) ?_
        ⟨.empty, rfl, text, hrender⟩
      intro boxes h hpassed
      obtain ⟨path, rfl, text, hpassed⟩ := hpassed
      obtain ⟨term, hget, hinside⟩ := render_below_passes hpassed
      exact ⟨term, hget, fun hnew child hmem => ⟨path.enter h, rfl, hinside hnew child hmem⟩⟩
    · exact fun hintact => exists_render hintact showHandles
  fails violation hfails := by
    cases render_below_stops showHandles .empty root hfails with
    | dangling h hreach hget => exact ⟨h, rfl, hreach, hget⟩
    | call _ _ hfollow => cases hfollow

/-- The bounded solver and the writer of terms end on every arena, with any cycles and any handles,
and fail only where a handle dangles. A path has room for `depth + 1` entries of each box in the
solver, and for one in the writer: what would happen further inside is never asked for. -/
theorem traversals_end (arena : Arena) (root : Handle) (depth : Nat) (showHandles : Bool) :
    (∀ below levels, (depth + 1) * arena.size < levels →
      ((arena.unrollLevel depth)^[levels] below .empty {} root).map Prod.fst =
        arena.solveBounded depth root) ∧
    arena.FailsOnlyAtDangling root (arena.solveBounded depth root) ∧
    (∀ below levels, arena.size < levels →
      (arena.renderLevel showHandles)^[levels] below .empty root =
        arena.render showHandles root) ∧
    arena.FailsOnlyAtDangling root (arena.render showHandles root) := by
  refine ⟨?_, solve_bounded_fails_only_at_dangling arena depth root, ?_,
    render_fails_only_at_dangling arena showHandles root⟩
  · intro below levels hlevels
    rw [← room_empty] at hlevels
    rw [iterate_level unroll_level_unroll (fun _ _ _ => unroll_level_congr) below levels _ hlevels,
      solveBounded]
    cases arena.unroll depth .empty {} root <;> rfl
  · intro below levels hlevels
    rw [← Nat.one_mul arena.size, ← room_empty arena 0] at hlevels
    rw [iterate_level render_level_render_below (fun _ _ _ => render_level_congr) below levels _
      hlevels, render]

/-- A loop with a handle in it that dangles. -/
def brokenLoop : Arena where
  slots := #[.union [1, 2], .concat 0 3, .eq 1]

/-- On the loop the solver, which enters each of the three boxes twice at most, needs seven levels
to find the handle that dangles, and the writer needs four. -/
theorem traversals_end_broken_loop :
    (1 + 1) * brokenLoop.size < 7 ∧ brokenLoop.size < 4 ∧ brokenLoop.Dangles 2 3 ∧
      (∀ below, ((brokenLoop.unrollLevel 1)^[7] below .empty {} 2).map Prod.fst =
        .error (.danglingBox 3)) ∧
      ∀ below, (brokenLoop.renderLevel true)^[4] below .empty 2 = .error (.danglingBox 3) := by
  have hsolved : brokenLoop.solveBounded 1 2 = .error (.danglingBox 3) := by
    simp [solveBounded, unroll, unrollAll, brokenLoop, get?, Term.isCompound, Term.children,
      Path.count_enter, Path.count_empty, bind, Except.bind, pure, Except.pure]
  have hwritten : brokenLoop.render true 2 = .error (.danglingBox 3) := by
    simp [render, renderBelow, renderAll, brokenLoop, get?, Term.isCompound, Term.children,
      Path.count_enter, Path.count_empty, bind, Except.bind, pure, Except.pure]
  obtain ⟨hsolver, hsolve, hwriter, _⟩ := traversals_end brokenLoop 2 1 true
  obtain ⟨h, hviolation, hdangles⟩ := hsolve.fails _ hsolved
  cases hviolation
  refine ⟨by decide, by decide, hdangles, ?_, ?_⟩
  · intro below
    rw [hsolver below 7 (by decide), hsolved]
  · intro below
    rw [hwriter below 4 (by decide), hwritten]

end StringReach.Arena
