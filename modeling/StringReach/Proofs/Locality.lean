import StringReach.Proofs.Extension
import StringReach.Proofs.Termination

/-!
# The solution of a box depends only on what lies below it

Two arenas that agree below a box give it the same unfoldings, whatever they hold elsewhere
(`LooksAlike.unfolds`). A path matters only through the boxes on it that lie below. Nothing is lost
by solving the children of a box first and apart from each other, if the box does not lie below them
(`solve_bounded_assemble`). A new box never does (`solve_new_assemble`), and the boxes that were
there before do not notice it.
-/

namespace StringReach.Arena

/-- Two arenas have the same content at and below a box. -/
def AgreeBelow (arena arena' : Arena) (root : Handle) : Prop :=
  ∀ h, arena.Reaches root h → arena'.get? h = arena.get? h

/-- A box looks the same from two paths in two arenas: the content at and below it is the same, and
both paths hold each of these boxes equally often. -/
structure LooksAlike (arena arena' : Arena) (path path' : List Handle) (h : Handle) : Prop where
  agree : arena.AgreeBelow arena' h
  count : ∀ box, arena.Reaches h box → path'.count box = path.count box

/-- The bounded solution of a term that is put into a new box. -/
def solveNew (arena : Arena) (depth : Nat) (term : Term) : Except Violation Solution :=
  (arena.alloc term).2.solveBounded depth (arena.alloc term).1

variable {arena arena' : Arena} {root h child : Handle} {term : Term} {p : Term → Prop}

namespace AgreeBelow

/-! ## The same boxes below -/

/-- Arenas that agree below a box agree below all that lies below it. -/
theorem of_reaches (hagree : arena.AgreeBelow arena' root) (hreach : arena.Reaches root h) :
    arena.AgreeBelow arena' h :=
  fun other hother => hagree other (hreach.trans hother)

/-- The box has the same children. -/
theorem child_iff (hagree : arena.AgreeBelow arena' root) :
    arena'.Child root child ↔ arena.Child root child := by
  unfold Child
  rw [hagree root .refl]

/-- The same boxes lie below. -/
theorem reaches_iff (hagree : arena.AgreeBelow arena' root) :
    arena'.Reaches root h ↔ arena.Reaches root h := by
  constructor
  · intro hreach
    induction hreach with
    | refl => exact .refl
    | tail _ hchild ih => exact .tail ih ((hagree.of_reaches ih).child_iff.mp hchild)
  · intro hreach
    induction hreach with
    | refl => exact .refl
    | tail hreach hchild ih => exact .tail ih ((hagree.of_reaches hreach).child_iff.mpr hchild)

/-- Every descent that ends in the one arena ends in the other. -/
theorem grounded (hagree : arena.AgreeBelow arena' root) (hground : arena.Grounded p root) :
    arena'.Grounded p root := by
  induction hground with
  | intro h term hget hterm _ ih =>
      refine .intro h term ((hagree h .refl).trans hget) hterm ?_
      intro child hmem
      exact ih child hmem (hagree.of_reaches (.single ((Arena.child_iff hget).mpr hmem)))

end AgreeBelow

/-! ## The same solutions -/

namespace LooksAlike

variable {depth warnings : Nat} {path path' : List Handle} {strings : Set String}

/-- The box has the same content. -/
theorem get? (halike : arena.LooksAlike arena' path path' h) (hget : arena.get? h = some term) :
    arena'.get? h = some term :=
  (halike.agree h .refl).trans hget

/-- Inside of the box both paths hold it once more, so its children look the same too. -/
theorem enter (halike : arena.LooksAlike arena' path path' h) (hget : arena.get? h = some term)
    (hmem : child ∈ term.children) : arena.LooksAlike arena' (h :: path) (h :: path') child where
  agree := halike.agree.of_reaches (.single ((child_iff hget).mpr hmem))
  count box hreach := by
    have hbelow : arena.Reaches h box := .head ((child_iff hget).mpr hmem) hreach
    rw [List.count_cons, List.count_cons, halike.count box hbelow]

/-- A box that looks the same unfolds to the same. -/
theorem unfolds (halike : arena.LooksAlike arena' path path' h)
    (hunfolds : arena.Unfolds depth path h strings warnings) :
    arena'.Unfolds depth path' h strings warnings := by
  induction hunfolds generalizing path' with
  | top path h hget => exact .top path' h (halike.get? hget)
  | bottom path h hget => exact .bottom path' h (halike.get? hget)
  | terminal path h value hget => exact .terminal path' h value (halike.get? hget)
  | parameter path h hget => exact .parameter path' h (halike.get? hget)
  | call path h callee hget => exact .call path' h callee (halike.get? hget)
  | pending path h hget => exact .pending path' h (halike.get? hget)
  | cut path h term hget hcompound hcount =>
      rw [← halike.count h .refl] at hcount
      exact .cut path' h term (halike.get? hget) hcompound hcount
  | union path h items parts counts hget hcount _ ih =>
      rw [← halike.count h .refl] at hcount
      refine .union path' h items parts counts (halike.get? hget) hcount ?_
      intro item hmem
      exact ih item hmem (halike.enter hget hmem)
  | concat path h left right _ _ _ _ hget hcount _ _ ihleft ihright =>
      rw [← halike.count h .refl] at hcount
      exact .concat path' h left right _ _ _ _ (halike.get? hget) hcount
        (ihleft (halike.enter hget (by simp [Term.children])))
        (ihright (halike.enter hget (by simp [Term.children])))
  | eq path h inner _ _ hget hcount _ ih =>
      rw [← halike.count h .refl] at hcount
      exact .eq path' h inner _ _ (halike.get? hget) hcount
        (ih (halike.enter hget (by simp [Term.children])))

end LooksAlike

namespace AgreeBelow

/-- The bounded solver gives an intact box the same solution in both arenas. -/
theorem solve_bounded_eq (hagree : arena.AgreeBelow arena' root) (hintact : arena.Intact root)
    (depth : Nat) : arena'.solveBounded depth root = arena.solveBounded depth root := by
  obtain ⟨solution, hsolve, hunfolds⟩ := solve_bounded_unfolds hintact depth
  have halike : arena.LooksAlike arena' [] [] root := ⟨hagree, fun _ _ => rfl⟩
  rw [hsolve, solve_bounded_of_unfolds (halike.unfolds hunfolds)]

/-- A box with a value has the same value in both arenas. -/
theorem has_value {solution : Solution} (hagree : arena.AgreeBelow arena' root)
    (hvalue : arena.HasValue root solution) : arena'.HasValue root solution where
  ends := hagree.grounded hvalue.ends
  stable := by
    refine ⟨hagree.grounded hvalue.stable.grounded, ?_⟩
    intro depth path hleads
    refine LooksAlike.unfolds ⟨hagree, ?_⟩ (hvalue.stable.unfolds depth [] leads_nil)
    -- What lies below a grounded box does not stand on a way to it.
    intro box hreach
    refine List.count_eq_zero.mpr fun hmem => ?_
    have hcycle : arena'.OnCycle root :=
      (hleads box hmem).trans_right (hagree.reaches_iff.mpr hreach)
    exact (hagree.grounded hvalue.ends).not_on_cycle hcycle

end AgreeBelow

/-! ## Boxes that are not below their children -/

/-- A compound box that lies below none of its children has the solution that is assembled from
theirs, although they may share cycles. -/
theorem solve_bounded_assemble {depth : Nat} {parts : List Solution}
    (hget : arena.get? h = some term) (hcompound : term.isCompound = true)
    (hapart : ∀ child ∈ term.children, ¬ arena.Reaches child h)
    (hparts : List.Forall₂ (fun child part => arena.solveBounded depth child = .ok part)
      term.children parts) :
    arena.solveBounded depth h = .ok (term.assemble parts) := by
  -- The box lies below none of its children, so they do not see that they are inside of it.
  have hinside : List.Forall₂ (fun child part =>
      arena.Unfolds depth [h] child part.language part.warnings) term.children parts := by
    have hmembers : List.Forall₂ (fun child part =>
        ¬ arena.Reaches child h ∧ arena.solveBounded depth child = .ok part)
        term.children parts := (List.forall₂_and_left _ _).mpr ⟨hapart, hparts⟩
    refine hmembers.imp ?_
    intro child part hchild
    obtain ⟨hfar, hsolve⟩ := hchild
    obtain ⟨solution, hother, hunfolds⟩ :=
      solve_bounded_unfolds (intact_of_solve_bounded hsolve) depth
    cases hsolve.symm.trans hother
    refine LooksAlike.unfolds ⟨fun _ _ => rfl, ?_⟩ hunfolds
    intro box hreach
    have hne : h ≠ box := by
      intro heq
      subst heq
      exact hfar hreach
    rw [List.count_cons_of_ne hne]
  exact solve_bounded_of_unfolds (Unfolds.assemble hget hcompound (Nat.zero_le depth) hinside)

/-- A union that lies below none of its items has at every depth exactly their strings. -/
theorem solve_bounded_union {depth : Nat} {items : List Handle}
    (hget : arena.get? h = some (.union items))
    (hapart : ∀ item ∈ items, ¬ arena.Reaches item h)
    (hsolves : ∀ item ∈ items, ∃ part, arena.solveBounded depth item = .ok part) :
    ∃ solution, arena.solveBounded depth h = .ok solution ∧
      ∀ text, text ∈ solution.strings ↔
        ∃ item ∈ items, ∃ part, arena.solveBounded depth item = .ok part ∧ text ∈ part.strings := by
  obtain ⟨parts, hparts⟩ := exists_map_ok hsolves
  refine ⟨_, solve_bounded_assemble hget rfl hapart (forall₂_of_map_ok hparts), ?_⟩
  intro text
  have hlanguage := Set.ext_iff.mp (Solution.language_merge_all parts) text
  rw [Set.mem_iUnion₂] at hlanguage
  refine hlanguage.trans ?_
  constructor
  · intro htext
    obtain ⟨part, hpart, htext⟩ := htext
    obtain ⟨item, hitem, hsolve⟩ := (mem_of_map_ok hparts part).mp hpart
    exact ⟨item, hitem, part, hsolve, htext⟩
  · intro htext
    obtain ⟨item, hitem, part, hsolve, htext⟩ := htext
    exact ⟨part, (mem_of_map_ok hparts part).mpr ⟨item, hitem, hsolve⟩, htext⟩

/-! ## New boxes -/

/-- A new box changes nothing below an intact box. -/
theorem Intact.agree_alloc (hintact : arena.Intact root) (term : Term) :
    arena.AgreeBelow (arena.alloc term).2 root := by
  intro h hreach
  obtain ⟨content, hget⟩ := hintact h hreach
  rw [get?_alloc, if_neg (ne_size hget)]

/-- A compound term in a new box has the solution that is assembled from those of its children. -/
theorem solve_new_assemble {depth : Nat} (term : Term) {parts : List Solution}
    (hcompound : term.isCompound = true)
    (hparts : List.Forall₂ (fun child part => arena.solveBounded depth child = .ok part)
      term.children parts) :
    arena.solveNew depth term = .ok (term.assemble parts) := by
  have hget : (arena.alloc term).2.get? arena.size = some term := by
    rw [get?_alloc, if_pos rfl]
  refine solve_bounded_assemble hget hcompound ?_ (hparts.imp ?_)
  · intro child hmem hreach
    obtain ⟨part, hsolve⟩ := exists_of_forall₂ hparts hmem
    have hintact := intact_of_solve_bounded hsolve
    obtain ⟨content, hnew⟩ :=
      hintact arena.size ((hintact.agree_alloc term).reaches_iff.mp hreach)
    exact absurd rfl (ne_size hnew)
  · intro child part hsolve
    have hintact := intact_of_solve_bounded hsolve
    rw [(hintact.agree_alloc term).solve_bounded_eq hintact, hsolve]

/-- At every depth and for any intact boxes, also if they share cycles, the solution of a new union
is that of its items merged in turn, the solution of a new concatenation is that of its parts
concatenated, and a box with the values of another has the solution of the other. No solution of a
box that was there before changes, whatever the new term. -/
theorem solve_bounded_compositional (arena : Arena) (depth : Nat) (items : List Handle)
    (hitems : ∀ h ∈ items, arena.Intact h) :
    (∃ parts, items.mapM (arena.solveBounded depth) = .ok parts ∧
      arena.solveNew depth (.union items) = .ok (.mergeAll parts)) ∧
    (∀ left ∈ items, ∀ right ∈ items, ∃ first second,
      arena.solveBounded depth left = .ok first ∧ arena.solveBounded depth right = .ok second ∧
      arena.solveNew depth (.concat left right) = .ok (first.concat second)) ∧
    (∀ inner ∈ items, ∃ solution, arena.solveBounded depth inner = .ok solution ∧
      arena.solveNew depth (.eq inner) = .ok solution) ∧
    ∀ term h depth' solution, arena.solveBounded depth' h = .ok solution →
      (arena.alloc term).2.solveBounded depth' h = .ok solution := by
  have hsolved : ∀ h ∈ items, ∃ solution, arena.solveBounded depth h = .ok solution := by
    intro h hmem
    obtain ⟨solution, hsolve, _⟩ := solve_bounded_unfolds (hitems h hmem) depth
    exact ⟨solution, hsolve⟩
  refine ⟨?_, ?_, ?_, ?_⟩
  · obtain ⟨parts, hparts⟩ := exists_map_ok hsolved
    exact ⟨parts, hparts, solve_new_assemble (.union items) rfl (forall₂_of_map_ok hparts)⟩
  · intro left hleft right hright
    obtain ⟨first, hfirst⟩ := hsolved left hleft
    obtain ⟨second, hsecond⟩ := hsolved right hright
    have hparts : List.Forall₂ (fun child part => arena.solveBounded depth child = .ok part)
        [left, right] [first, second] := .cons hfirst (.cons hsecond .nil)
    exact ⟨first, second, hfirst, hsecond, solve_new_assemble (.concat left right) rfl hparts⟩
  · intro inner hinner
    obtain ⟨solution, hsolve⟩ := hsolved inner hinner
    have hparts : List.Forall₂ (fun child part => arena.solveBounded depth child = .ok part)
        [inner] [solution] := .cons hsolve .nil
    exact ⟨solution, hsolve, solve_new_assemble (.eq inner) rfl hparts⟩
  · intro term h depth' solution hsolve
    have hintact := intact_of_solve_bounded hsolve
    rw [(hintact.agree_alloc term).solve_bounded_eq hintact, hsolve]

/-- The two boxes of the cycle, one of them listed twice. -/
theorem solve_bounded_compositional_shared_loop :
    (∀ h ∈ [2, 4, 2], sharedLoop.Intact h) ∧
      (∃ parts, [2, 4, 2].mapM (sharedLoop.solveBounded 3) = .ok parts ∧
        sharedLoop.solveNew 3 (.union [2, 4, 2]) = .ok (.mergeAll parts)) ∧
      (∃ first second, sharedLoop.solveBounded 3 2 = .ok first ∧
        sharedLoop.solveBounded 3 4 = .ok second ∧
        sharedLoop.solveNew 3 (.concat 2 4) = .ok (first.concat second)) ∧
      ∃ solution, sharedLoop.solveBounded 3 4 = .ok solution ∧
        sharedLoop.solveNew 3 (.eq 4) = .ok solution ∧
        (sharedLoop.alloc (.eq 2)).2.solveBounded 3 4 = .ok solution := by
  have hboxes : ∀ h ∈ [2, 4, 2], h < sharedLoop.size := by decide
  have hitems : ∀ h ∈ [2, 4, 2], sharedLoop.Intact h :=
    fun h hmem => intact_of_children_lt (by decide) (hboxes h hmem)
  obtain ⟨hunion, hconcat, heq, hothers⟩ :=
    solve_bounded_compositional sharedLoop 3 [2, 4, 2] hitems
  obtain ⟨solution, hsolve, hnew⟩ := heq 4 (by decide)
  exact ⟨hitems, hunion, hconcat 2 (by decide) 4 (by decide), solution, hsolve, hnew,
    hothers _ 4 3 solution hsolve⟩

end StringReach.Arena
