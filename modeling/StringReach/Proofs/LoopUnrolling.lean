import Mathlib.Data.Set.Lattice.Image
import Mathlib.Order.Lattice.Nat
import StringReach.Proofs.Termination

/-!
# A loop that appends

A box that holds some values or itself with a suffix describes a loop that appends the suffix. Such
a loop is unrolled `depth + 1` times before it is cut off: with one round more the values are those
at the start, or those of the rounds inside with the suffix behind them (`Solution.rounds`). The
lemmas on `rounds` say which strings and how many warnings this makes, and `Unfolds.appending` that
it is what the loop unfolds to.
-/

namespace StringReach

/-- The texts that are put together from `count` strings of a set. -/
def repeated (strings : Set String) : Nat → Set String
  | 0 => {""}
  | count + 1 => Set.image2 (· ++ ·) (repeated strings count) strings

namespace Solution

/-- What is known of a loop that starts with one of the values `base` and appends `suffix`, when it
is cut off after so many rounds. -/
def rounds (base : List Solution) (suffix : Solution) : Nat → Solution
  | 0 => .cut
  | count + 1 => .mergeAll (base ++ [(rounds base suffix count).concat suffix])

/-- A round more: the values at the start, or those of the rounds inside with the suffix. -/
theorem rounds_succ (base : List Solution) (suffix : Solution) (count : Nat) :
    rounds base suffix (count + 1) =
      (mergeAll base).merge ((rounds base suffix count).concat suffix) := by
  rw [rounds, merge_all_concat]

/-- The strings of a loop are those of the start with less than `count` suffixes behind them, and
the wildcard with `count` suffixes. -/
theorem language_rounds (base : List Solution) (suffix : Solution) (count : Nat) :
    (rounds base suffix count).language =
      (⋃ k < count, Set.image2 (· ++ ·) (mergeAll base).language (repeated suffix.language k)) ∪
        Set.image2 (· ++ ·) {Wildcard.marker} (repeated suffix.language count) := by
  -- A suffix behind a text with `k` suffixes makes `k + 1` of them.
  have hmore : ∀ (start : Set String) k,
      Set.image2 (· ++ ·) (Set.image2 (· ++ ·) start (repeated suffix.language k))
        suffix.language = Set.image2 (· ++ ·) start (repeated suffix.language (k + 1)) := by
    intro start k
    exact Set.image2_assoc fun _ _ _ => String.append_assoc
  induction count with
  | zero => simp [rounds, repeated]
  | succ count ih =>
      rw [rounds_succ, language_merge, language_concat, ih, Set.image2_union_left, hmore,
        Set.image2_iUnion₂_left, Set.biUnion_lt_succ', ← Set.union_assoc]
      simp only [hmore]
      congr 2
      simp [repeated]

/-- Each round has the warnings of the start and of the suffix, and the cut is one more. -/
theorem warnings_rounds (base : List Solution) (suffix : Solution) (count : Nat) :
    (rounds base suffix count).warnings =
      count * ((base.map warnings).sum + suffix.warnings) + 1 := by
  induction count with
  | zero => simp [rounds, cut]
  | succ count ih =>
      rw [rounds_succ]
      show (mergeAll base).warnings + ((rounds base suffix count).warnings + suffix.warnings) = _
      rw [warnings_merge_all, ih, Nat.succ_mul]
      omega

end Solution

namespace Arena

variable {arena : Arena} {depth : Nat} {path : List Handle} {loop step suffix : Handle}
  {items : List Handle} {base : List Solution} {tail : Solution}

/-- A loop that stands on the path with as many of its steps is unrolled until there is no room for
another round. -/
theorem Unfolds.appending (hloop : arena.get? loop = some (.union (items ++ [step])))
    (hstep : arena.get? step = some (.concat loop suffix))
    (hbase : List.Forall₂ arena.Stable items base) (htail : arena.Stable suffix tail)
    {count : Nat} (hroom : path.count loop + count = depth + 1)
    (hsteps : path.count step = path.count loop) (hleads : arena.Leads path loop) :
    arena.Unfolds depth path loop (Solution.rounds base tail count).language
      (Solution.rounds base tail count).warnings := by
  have hne : loop ≠ step := by
    intro heq
    rw [heq, hstep] at hloop
    cases hloop
  have hdown : arena.Child loop step := (child_iff hloop).mpr (by simp [Term.children])
  have hback : arena.Child step loop := (child_iff hstep).mpr (by simp [Term.children])
  have hbehind : arena.Child step suffix := (child_iff hstep).mpr (by simp [Term.children])
  induction count generalizing path with
  | zero =>
      rw [Solution.rounds, Solution.language_cut]
      exact .cut path loop _ hloop rfl (by omega)
  | succ count ih =>
      have hinside : arena.Leads (loop :: path) step := hleads.enter hdown
      have hagain : arena.Unfolds depth (step :: loop :: path) loop
          (Solution.rounds base tail count).language
          (Solution.rounds base tail count).warnings := by
        refine ih ?_ ?_ (hinside.enter hback)
        · rw [List.count_cons_of_ne hne.symm, List.count_cons_self]
          omega
        · rw [List.count_cons_self, List.count_cons_of_ne hne, List.count_cons_of_ne hne.symm,
            List.count_cons_self, hsteps]
      have hround : arena.Unfolds depth (loop :: path) step
          ((Solution.rounds base tail count).concat tail).language
          ((Solution.rounds base tail count).concat tail).warnings := by
        have hcount : (loop :: path).count step ≤ depth := by
          rw [List.count_cons_of_ne hne]
          omega
        exact Unfolds.assemble hstep rfl hcount
          (.cons hagain (.cons (htail.unfolds _ _ (hinside.enter hbehind)) .nil))
      have hstart : List.Forall₂ (fun item part =>
          arena.Unfolds depth (loop :: path) item part.language part.warnings) items base := by
        have hmembers : List.Forall₂ (fun item part =>
            item ∈ items ∧ arena.Stable item part) items base :=
          (List.forall₂_and_left _ _).mpr ⟨fun _ hmem => hmem, hbase⟩
        refine hmembers.imp ?_
        intro item part hitem
        have hchild : arena.Child loop item :=
          (child_iff hloop).mpr (List.mem_append_left _ hitem.1)
        exact hitem.2.unfolds _ _ (hleads.enter hchild)
      exact Unfolds.assemble hloop rfl (by omega) (List.rel_append hstart (.cons hround .nil))

/-- A box that holds some boxes or itself followed by a suffix is unrolled exactly, if these boxes
and the suffix are not recursive and hence do not lead back to it. Its strings are those of the
boxes with up to `depth` suffixes behind them, and the wildcard with one suffix more. Every round
has the warnings of the boxes and of the suffix, and the cut has one. -/
theorem solve_bounded_appending_exact (arena : Arena) (loop step suffix : Handle)
    (items : List Handle) (hloop : arena.get? loop = some (.union (items ++ [step])))
    (hstep : arena.get? step = some (.concat loop suffix))
    (hitems : ∀ item ∈ items, arena.isRecursive false item = .ok false)
    (hsuffix : arena.isRecursive false suffix = .ok false) (depth : Nat) :
    ∃ base tail solution, items.mapM arena.solveAcyclic = .ok base ∧
      arena.solveAcyclic suffix = .ok tail ∧ arena.solveBounded depth loop = .ok solution ∧
      solution.language =
        (⋃ k ≤ depth, Set.image2 (· ++ ·) (⋃ part ∈ base, part.language)
          (repeated tail.language k)) ∪
        Set.image2 (· ++ ·) {Wildcard.marker} (repeated tail.language (depth + 1)) ∧
      solution.warnings =
        (depth + 1) * ((base.map Solution.warnings).sum + tail.warnings) + 1 := by
  obtain ⟨tail, htail, hvalue⟩ := (Checker.grounded_of_check hsuffix).exists_solution
  obtain ⟨base, hbase, hvalues⟩ := exists_map_related fun item hmem =>
    (Checker.grounded_of_check (hitems item hmem)).exists_solution
  have hstables : List.Forall₂ arena.Stable items base :=
    hvalues.imp fun _ _ hitem => hitem.stable
  have hunfolds : arena.Unfolds depth [] loop (Solution.rounds base tail (depth + 1)).language
      (Solution.rounds base tail (depth + 1)).warnings :=
    .appending hloop hstep hstables hvalue.stable (Nat.zero_add _) rfl leads_nil
  refine ⟨base, tail, _, hbase, htail, solve_bounded_of_unfolds hunfolds, ?_, ?_⟩
  · rw [Solution.language_rounds, Solution.language_merge_all]
    simp only [Nat.lt_succ_iff]
  · exact Solution.warnings_rounds base tail (depth + 1)

/-- A loop that starts with a box, listed twice, and appends the same box. -/
def suffixLoop : Arena where
  slots := #[.terminal "x", .top, .union [0, 1], .union [2, 2, 4], .concat 3 2]

/-- The loop at depth one: what it starts with, that with one suffix, and two suffixes after a
wildcard. -/
theorem solve_bounded_appending_exact_suffix_loop :
    suffixLoop.get? 3 = some (.union ([2, 2] ++ [4])) ∧
      suffixLoop.get? 4 = some (.concat 3 2) ∧ suffixLoop.isRecursive false 2 = .ok false ∧
      ∃ base tail solution, [2, 2].mapM suffixLoop.solveAcyclic = .ok base ∧
        suffixLoop.solveAcyclic 2 = .ok tail ∧ suffixLoop.solveBounded 1 3 = .ok solution ∧
        solution.language =
          (⋃ k ≤ 1, Set.image2 (· ++ ·) (⋃ part ∈ base, part.language)
            (repeated tail.language k)) ∪
          Set.image2 (· ++ ·) {Wildcard.marker} (repeated tail.language 2) ∧
        solution.warnings = 2 * ((base.map Solution.warnings).sum + tail.warnings) + 1 := by
  have hcheck : suffixLoop.isRecursive false 2 = .ok false := by
    simp [isRecursive, Checker.check, Checker.reset, sweep, sweepAll, Sweep.pass, suffixLoop, get?,
      Term.isCompound, Term.children, Path.count_empty, bind, Except.bind, pure, Except.pure]
  have hitems : ∀ item ∈ [2, 2], suffixLoop.isRecursive false item = .ok false := by
    simpa using hcheck
  exact ⟨rfl, rfl, hcheck,
    solve_bounded_appending_exact suffixLoop 3 4 2 [2, 2] rfl rfl hitems hcheck 1⟩

end Arena

end StringReach
