import StringReach.Proofs.Unfolding
import StringReach.Solution.Bounded

/-!
# The bounded solver computes the unfolding

The bounded solver shares solutions between boxes, and the unfolding does not. By
`solve_bounded_unfolds` the difference cannot be seen. The invariant is that every shared solution
is stable, and it is kept because a box is grounded when the count of revisits does not move below
it (`Unrolled.stable`).
-/

namespace StringReach.Arena

/-- What solving some boxes in turn gives and leaves behind. -/
structure Unrolled (arena : Arena) (depth : Nat) (path : List Handle) (before after : Unrolling)
    (items : List Handle) (parts : List Solution) : Prop where
  known : arena.StableTable after.known
  unfolds : List.Forall₂ (fun item part =>
    arena.Unfolds depth path item part.language part.warnings) items parts
  revisits : before.revisits ≤ after.revisits
  stable : after.revisits = before.revisits → List.Forall₂ arena.Stable items parts

/-- A handle that dangles is reached from a box. -/
def Dangles (arena : Arena) (root h : Handle) : Prop :=
  arena.Reaches root h ∧ arena.get? h = none

variable {arena : Arena} {depth : Nat} {path : List Handle} {h : Handle} {term : Term}
  {before middle after state : Unrolling} {items : List Handle} {solution : Solution}
  {parts : List Solution}

namespace Unrolled

/-- Solving no box changes nothing. -/
theorem nil (hknown : arena.StableTable state.known) :
    arena.Unrolled depth path state state [] [] where
  known := hknown
  unfolds := .nil
  revisits := Nat.le_refl _
  stable _ := .nil

/-- Solving one box and then others is solving all of them. -/
theorem cons (hfirst : arena.Unrolled depth path before middle [h] [solution])
    (hrest : arena.Unrolled depth path middle after items parts) :
    arena.Unrolled depth path before after (h :: items) (solution :: parts) where
  known := hrest.known
  unfolds := .cons (List.forall₂_cons.mp hfirst.unfolds).1 hrest.unfolds
  revisits := hfirst.revisits.trans hrest.revisits
  stable hsame := by
    -- The count only grows, so it has moved in neither part.
    have hle := hfirst.revisits
    have hle' := hrest.revisits
    have hstable := hfirst.stable (by omega)
    exact .cons (List.forall₂_cons.mp hstable).1 (hrest.stable (by omega))

/-- A stable box is solved without a trace. -/
theorem shared (hknown : arena.StableTable state.known) (hleads : arena.Leads path h)
    (hstable : arena.Stable h solution) :
    arena.Unrolled depth path state state [h] [solution] where
  known := hknown
  unfolds := .cons (hstable.unfolds depth path hleads) .nil
  revisits := Nat.le_refl _
  stable _ := .cons hstable .nil

/-- A box that is cut off counts as a revisit. -/
theorem cut (hget : arena.get? h = some term) (hcompound : term.isCompound = true)
    (hcount : depth < path.count h) (hknown : arena.StableTable state.known) :
    arena.Unrolled depth path state { state with revisits := state.revisits + 1 } [h] [.cut] where
  known := hknown
  unfolds := by
    refine .cons ?_ .nil
    rw [Solution.language_cut]
    exact .cut path h term hget hcompound hcount
  revisits := Nat.le_succ _
  stable hsame := by simp at hsame

/-- A box whose children are solved is solved, and its solution may be shared if no box was met
again below it. -/
theorem assemble {inside : Unrolling} (hget : arena.get? h = some term)
    (hcompound : term.isCompound = true) (hcount : path.count h ≤ depth)
    (hinside : before.revisits ≤ inside.revisits)
    (hchildren : arena.Unrolled depth (h :: path) inside after term.children parts) :
    arena.Unrolled depth path before
      (if after.revisits = inside.revisits then
        { after with known := after.known.insert h (term.assemble parts) }
      else after)
      [h] [term.assemble parts] := by
  have hstable : after.revisits = inside.revisits → arena.Stable h (term.assemble parts) :=
    fun hsame => .assemble hget (hchildren.stable hsame)
  have hle := hchildren.revisits
  have hunfolds := Unfolds.assemble hget hcompound hcount hchildren.unfolds
  split
  · rename_i hsame
    exact ⟨hchildren.known.insert (hstable hsame), .cons hunfolds .nil, hinside.trans hle,
      fun _ => .cons (hstable hsame) .nil⟩
  · rename_i hmoved
    -- A count that has moved below the box cannot be the one before it.
    refine ⟨hchildren.known, .cons hunfolds .nil, hinside.trans hle, ?_⟩
    intro hsame
    omega

end Unrolled

/-- After a box that can be solved, the others are solved in the state that it leaves. -/
theorem unroll_all_cons {path : Path} {rest : List Handle}
    (hsolve : arena.unroll depth path state h = .ok (solution, middle)) :
    arena.unrollAll depth path state (h :: rest) =
      (arena.unrollAll depth path middle rest).map fun result =>
        (solution :: result.1, result.2) := by
  rw [unrollAll, hsolve]
  show (arena.unrollAll depth path middle rest >>= fun result =>
    pure (solution :: result.1, result.2)) = _
  cases arena.unrollAll depth path middle rest <;> rfl

mutual

/-- Solving a box gives what it unfolds to, or fails at a handle that dangles. -/
theorem unroll_outcome (depth : Nat) (path : Path) (state : Unrolling) (h : Handle)
    (hknown : arena.StableTable state.known) (hleads : arena.Leads path.boxes h) :
    (∃ solution after, arena.unroll depth path state h = .ok (solution, after) ∧
      arena.Unrolled depth path.boxes state after [h] [solution]) ∨
    ∃ other, arena.unroll depth path state h = .error (.danglingBox other) ∧
      arena.Dangles h other := by
  rw [unroll]
  split
  · rename_i hget
    exact .inr ⟨h, rfl, .refl, hget⟩
  · rename_i term hget
    split
    · rename_i hleaf
      have hleaf : term.isCompound = false := by simpa using hleaf
      have hstable : arena.Stable h (term.assemble []) := by
        refine .assemble hget ?_
        rw [Term.children_eq_nil_of_not_compound hleaf]
        exact .nil
      exact .inl ⟨_, _, rfl, .shared hknown hleads hstable⟩
    · rename_i hcompound
      have hcompound : term.isCompound = true := by simpa using hcompound
      split
      · rename_i solution hfound
        exact .inl ⟨solution, state, rfl, .shared hknown hleads (hknown h solution hfound)⟩
      · by_cases hcount : path.count h ≤ depth
        · simp only [dif_pos hcount]
          have hroom : arena.room depth (path.enter h) < arena.room depth path :=
            room_enter_lt (lt_size_of_get? hget) hcount
          rw [Path.count_eq] at hcount
          -- Whether the box itself is a revisit does not matter: the count never falls.
          generalize hrevisits :
            (if 0 < path.count h then state.revisits + 1 else state.revisits) = revisits
          have hle : state.revisits ≤ revisits := by
            split at hrevisits <;> omega
          rcases unroll_all_outcome depth (path.enter h) { state with revisits } term.children
              hknown (fun child hmem => hleads.enter ((child_iff hget).mpr hmem)) with
            ⟨parts, after, hall, hchildren⟩ | ⟨child, hmem, other, hall, hreach, hnone⟩
          · rw [hall]
            refine .inl ⟨_, _, ?_, Unrolled.assemble hget hcompound hcount hle hchildren⟩
            show (if after.revisits = revisits then _ else _) = Except.ok _
            split <;> rfl
          · rw [hall]
            exact .inr ⟨other, rfl, .head ((child_iff hget).mpr hmem) hreach, hnone⟩
        · simp only [dif_neg hcount]
          rw [Path.count_eq] at hcount ⊢
          rw [if_pos (by omega)]
          exact .inl ⟨_, _, rfl, .cut hget hcompound (by omega) hknown⟩
termination_by (arena.room depth path, 0)

/-- Solving several boxes gives what they unfold to, or fails at a handle that dangles. -/
theorem unroll_all_outcome (depth : Nat) (path : Path) (state : Unrolling) (items : List Handle)
    (hknown : arena.StableTable state.known) (hleads : ∀ h ∈ items, arena.Leads path.boxes h) :
    (∃ parts after, arena.unrollAll depth path state items = .ok (parts, after) ∧
      arena.Unrolled depth path.boxes state after items parts) ∨
    ∃ h ∈ items, ∃ other, arena.unrollAll depth path state items = .error (.danglingBox other) ∧
      arena.Dangles h other := by
  cases items with
  | nil =>
      rw [unrollAll]
      exact .inl ⟨[], state, rfl, .nil hknown⟩
  | cons h rest =>
      rcases unroll_outcome depth path state h hknown (hleads h (by simp)) with
        ⟨solution, middle, hsolve, hfirst⟩ | ⟨other, hsolve, hother⟩
      · rw [unroll_all_cons hsolve]
        rcases unroll_all_outcome depth path middle rest hfirst.known
            (fun box hmem => hleads box (List.mem_cons_of_mem h hmem)) with
          ⟨parts, after, hall, hrest⟩ | ⟨box, hmem, other, hall, hother⟩
        · rw [hall]
          exact .inl ⟨solution :: parts, after, rfl, hfirst.cons hrest⟩
        · rw [hall]
          exact .inr ⟨box, List.mem_cons_of_mem h hmem, other, rfl, hother⟩
      · rw [unrollAll, hsolve]
        exact .inr ⟨h, by simp, other, rfl, hother⟩
termination_by (arena.room depth path, items.length)

end

/-! ## The solver -/

/-- The bounded solver gives the unfolding of a box, or fails at a handle that dangles. -/
theorem solve_bounded_outcome (arena : Arena) (depth : Nat) (root : Handle) :
    (∃ solution, arena.solveBounded depth root = .ok solution ∧
      arena.Unfolds depth [] root solution.language solution.warnings) ∨
    ∃ other, arena.solveBounded depth root = .error (.danglingBox other) ∧
      arena.Dangles root other := by
  rw [solveBounded]
  rcases unroll_outcome depth .empty {} root stable_table_empty leads_nil with
    ⟨solution, after, hsolve, hunrolled⟩ | ⟨other, hsolve, hdangles⟩
  · rw [hsolve]
    exact .inl ⟨solution, rfl, (List.forall₂_cons.mp hunrolled.unfolds).1⟩
  · rw [hsolve]
    exact .inr ⟨other, rfl, hdangles⟩

/-- The bounded solver gives the unfolding of every intact box. -/
theorem solve_bounded_unfolds {root : Handle} (hintact : arena.Intact root) (depth : Nat) :
    ∃ solution, arena.solveBounded depth root = .ok solution ∧
      arena.Unfolds depth [] root solution.language solution.warnings := by
  rcases solve_bounded_outcome arena depth root with hsolved | ⟨other, _, hreach, hnone⟩
  · exact hsolved
  · obtain ⟨term, hget⟩ := hintact other hreach
    cases hget.symm.trans hnone

/-- For every depth, the bounded solver gives an intact box the one solution that the box unfolds
to: sharing solutions changes neither the strings nor the count of warnings. -/
theorem solve_bounded_exact (arena : Arena) (depth : Nat) (root : Handle)
    (hintact : arena.Intact root) :
    ∃ solution, arena.solveBounded depth root = .ok solution ∧
      ∀ strings warnings, arena.Unfolds depth [] root strings warnings ↔
        strings = solution.language ∧ warnings = solution.warnings := by
  obtain ⟨solution, hsolve, hunfolds⟩ := solve_bounded_unfolds hintact depth
  refine ⟨solution, hsolve, ?_⟩
  intro strings warnings
  constructor
  · exact fun hother => hother.deterministic hunfolds
  · rintro ⟨rfl, rfl⟩
    exact hunfolds

/-- A loop that appends to a value made of shared boxes, next to a box without content. -/
def sharedLoop : Arena where
  slots := #[.terminal "x", .union [0, 0], .union [1, 1, 4, 5], .terminal "!", .concat 2 3,
    .pending]

/-- The loop is unrolled three times, and what the solver gives is the only unrolling there is. -/
theorem solve_bounded_exact_shared_loop :
    sharedLoop.Intact 2 ∧ ∃ solution, sharedLoop.solveBounded 3 2 = .ok solution ∧
      ∀ strings warnings, sharedLoop.Unfolds 3 [] 2 strings warnings ↔
        strings = solution.language ∧ warnings = solution.warnings := by
  have hintact : sharedLoop.Intact 2 := intact_of_children_lt (by decide) (by decide)
  exact ⟨hintact, solve_bounded_exact sharedLoop 3 2 hintact⟩

end StringReach.Arena
