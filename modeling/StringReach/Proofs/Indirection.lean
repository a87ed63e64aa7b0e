import StringReach.Proofs.Locality

/-!
# Boxes that have the values of another

A box that has the values of another adds nothing to it: at every depth the two have the same
solution, also if they lie on a cycle. Ways through the graph may then differ in how often they pass
the first box (`Shadows`). This cannot be seen, since each time they go on to the second, which is
cut off no later (`Unfolds.of_shadows`).
-/

namespace StringReach.Arena

variable {arena : Arena} {depth : Nat} {path path' : List Handle} {h child outer inner : Handle}
  {term : Term} {strings : Set String} {warnings : Nat}

/-- Two ways to `h` differ only in how often they pass `outer`. Neither passes it more often than
`inner`, into which it leads, except that a way may be about to enter `inner` from there. -/
structure Shadows (outer inner : Handle) (path path' : List Handle) (h : Handle) : Prop where
  count : ∀ box, box ≠ outer → path'.count box = path.count box
  passes : path.count outer ≤ path.count inner + if h = inner then 1 else 0
  passes' : path'.count outer ≤ path'.count inner + if h = inner then 1 else 0

/-- A way that goes on to a child keeps the balance of the two boxes. -/
theorem count_enter_le (houter : arena.get? outer = some (.eq inner)) (hne : inner ≠ outer)
    (hchild : arena.Child h child)
    (hpasses : path.count outer ≤ path.count inner + if h = inner then 1 else 0) :
    (h :: path).count outer ≤ (h :: path).count inner + if child = inner then 1 else 0 := by
  by_cases hout : h = outer
  · subst hout
    have hinto : child = inner := by simpa [Term.children] using (child_iff houter).mp hchild
    rw [if_neg hne.symm] at hpasses
    rw [if_pos hinto, List.count_cons_self, List.count_cons_of_ne hne.symm]
    omega
  · rw [List.count_cons_of_ne hout]
    by_cases hin : h = inner
    · subst hin
      rw [if_pos rfl] at hpasses
      rw [List.count_cons_self]
      omega
    · rw [if_neg hin] at hpasses
      rw [List.count_cons_of_ne hin]
      omega

/-- Inside of a box both ways still differ only in `outer`. -/
theorem Shadows.enter (hshadows : Shadows outer inner path path' h)
    (houter : arena.get? outer = some (.eq inner)) (hne : inner ≠ outer)
    (hchild : arena.Child h child) : Shadows outer inner (h :: path) (h :: path') child where
  count box hbox := by rw [List.count_cons, List.count_cons, hshadows.count box hbox]
  passes := count_enter_le houter hne hchild hshadows.passes
  passes' := count_enter_le houter hne hchild hshadows.passes'

/-- How often a way has passed a box that leads into another does not matter: where the first is cut
off, the second is. -/
theorem Unfolds.of_shadows (hunfolds : arena.Unfolds depth path h strings warnings)
    (houter : arena.get? outer = some (.eq inner)) (hne : inner ≠ outer)
    (hinner : arena.get? inner = some term) (hcompound : term.isCompound = true)
    (hshadows : Shadows outer inner path path' h) :
    arena.Unfolds depth path' h strings warnings := by
  induction hunfolds generalizing path' with
  | top path h hget => exact .top path' h hget
  | bottom path h hget => exact .bottom path' h hget
  | terminal path h value hget => exact .terminal path' h value hget
  | parameter path h hget => exact .parameter path' h hget
  | call path h callee hget => exact .call path' h callee hget
  | pending path h hget => exact .pending path' h hget
  | cut path h content hget hcontent hcount =>
      by_cases hout : h = outer
      · subst hout
        have hpasses := hshadows.passes
        rw [if_neg hne.symm] at hpasses
        by_cases hroom : path'.count h ≤ depth
        · -- The box is entered, and the one that it leads into is cut off instead.
          refine .eq path' h inner _ _ houter hroom (.cut _ inner term hinner hcompound ?_)
          rw [List.count_cons_of_ne hne.symm, hshadows.count inner hne]
          omega
        · exact .cut path' h content hget hcontent (by omega)
      · rw [← hshadows.count h hout] at hcount
        exact .cut path' h content hget hcontent hcount
  | union path h items parts counts hget hcount _ ih =>
      have hout : h ≠ outer := by
        intro heq
        subst heq
        cases hget.symm.trans houter
      rw [← hshadows.count h hout] at hcount
      refine .union path' h items parts counts hget hcount ?_
      intro item hmem
      exact ih item hmem (hshadows.enter houter hne ⟨_, hget, hmem⟩)
  | concat path h left right _ _ _ _ hget hcount _ _ ihleft ihright =>
      have hout : h ≠ outer := by
        intro heq
        subst heq
        cases hget.symm.trans houter
      rw [← hshadows.count h hout] at hcount
      exact .concat path' h left right _ _ _ _ hget hcount
        (ihleft (hshadows.enter houter hne ⟨_, hget, by simp [Term.children]⟩))
        (ihright (hshadows.enter houter hne ⟨_, hget, by simp [Term.children]⟩))
  | eq path h content strings warnings hget hcount hcontent ih =>
      have hinside := ih (hshadows.enter houter hne ⟨_, hget, by simp [Term.children]⟩)
      by_cases hroom : path'.count h ≤ depth
      · exact .eq path' h content strings warnings hget hroom hinside
      · have hout : h = outer := by
          by_contra hout
          have hsame := hshadows.count h hout
          omega
        subst hout
        cases hget.symm.trans houter
        -- The box is cut off, and so was the one that it leads into.
        have hpasses := hshadows.passes'
        rw [if_neg hne.symm, hshadows.count inner hne] at hpasses
        have hcut : depth < (h :: path).count inner := by
          rw [List.count_cons_of_ne hne.symm]
          omega
        obtain ⟨rfl, rfl⟩ := hcontent.deterministic (.cut _ inner term hinner hcompound hcut)
        exact .cut path' h _ houter rfl (by omega)

/-- Below a box that has the values of another lies only what lies below the other. -/
theorem not_reaches_of_eq (houter : arena.get? outer = some (.eq inner)) (hne : outer ≠ h)
    (hinner : ¬ arena.Reaches inner h) : ¬ arena.Reaches outer h := by
  intro hreach
  rcases hreach.cases_head with heq | ⟨child, hchild, hreach⟩
  · exact hne heq
  · obtain rfl : child = inner := by simpa [Term.children] using (child_iff houter).mp hchild
    exact hinner hreach

/-- A box that has the values of another has its solution at every depth, also if it lies below the
other. -/
theorem solve_bounded_eq_inner (houter : arena.get? outer = some (.eq inner))
    (hintact : arena.Intact outer) (depth : Nat) :
    arena.solveBounded depth outer = arena.solveBounded depth inner := by
  by_cases hne : inner = outer
  · rw [hne]
  · obtain ⟨solution, hsolve, hunfolds⟩ := solve_bounded_unfolds hintact depth
    have hinside := hunfolds.of_eq houter (Nat.zero_le depth)
    obtain ⟨term, hinner⟩ := hintact inner (.single ⟨_, houter, by simp [Term.children]⟩)
    have hdirect : arena.Unfolds depth [] inner solution.language solution.warnings := by
      by_cases hcompound : term.isCompound = true
      · refine hinside.of_shadows houter hne hinner hcompound ⟨?_, ?_, ?_⟩
        · intro box hbox
          rw [List.count_cons_of_ne hbox.symm]
        · rw [if_pos rfl, List.count_cons_self]
          simp
        · simp
      · have hleaf : term.isCompound = false := Bool.eq_false_iff.mpr hcompound
        obtain ⟨hlanguage, hwarnings⟩ := hinside.deterministic (.leaf hinner hleaf)
        rw [hlanguage, hwarnings]
        exact .leaf hinner hleaf
    rw [hsolve, solve_bounded_of_unfolds hdirect]

end StringReach.Arena
