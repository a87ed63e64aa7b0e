import StringReach.Proofs.Resolution

/-!
# Arenas that take nothing away

`Kept` says where the content of a box is found after one change: still in the box, at the beginning
of a longer union, or moved to a box below. Whatever the change, the children of the old content lie
below the box. Two such changes in a row need not be one of them, so `ExtendedBy` keeps only what
composes: handles stay valid, unions keep their items, and children are not lost.
-/

namespace StringReach

/-- A term that stands for a content to be supplied. -/
def Term.IsPlaceholder (term : Term) : Prop :=
  term = .pending ∨ term = .bottom

namespace Arena

/-- `Kept arena h term` says where an arena has the content that a box had before a change: still in
the box, at the beginning of a longer union, or in a box below. Only a placeholder is replaced. -/
inductive Kept (arena : Arena) (h : Handle) : Term → Prop where
  | same (term) : arena.get? h = some term → Kept arena h term
  | longer (items more) : arena.get? h = some (.union (items ++ more)) →
      Kept arena h (.union items)
  | moved (term box other) : (∀ items, term ≠ .union items) →
      arena.get? h = some (.union [box, other]) → arena.get? box = some term →
      Kept arena h term
  | filled (term inner) : term.IsPlaceholder → arena.get? h = some (.eq inner) →
      Kept arena h term

/-- An arena extends another when it has all its boxes, and a box that is not as before is a longer
union, a union in place of another content with the same children below it, or was a placeholder. -/
structure ExtendedBy (before after : Arena) : Prop where
  valid : ∀ h term, before.get? h = some term → ∃ term', after.get? h = some term'
  unions : ∀ h items, before.get? h = some (.union items) →
    ∃ more, after.get? h = some (.union (items ++ more))
  others : ∀ h term, before.get? h = some term → ¬ term.IsPlaceholder →
    after.get? h = some term ∨ (∃ items, after.get? h = some (.union items)) ∧
      ∀ child ∈ term.children, Relation.TransGen after.Child h child

variable {arena before middle after : Arena} {target inner h child : Handle} {term : Term}

/-- A box that is found has content. -/
theorem get?_of_get (hget : arena.get h = .ok term) : arena.get? h = some term := by
  unfold get at hget
  split at hget
  · rename_i other hother
    cases hget
    exact hother
  · cases hget

/-- A handle without a box is not found. -/
theorem get_eq_error (hget : arena.get? h = none) : arena.get h = .error (.danglingBox h) := by
  rw [get, hget]

/-- A box with content is not the new one. -/
theorem ne_size (hget : arena.get? h = some term) : h ≠ arena.size :=
  Nat.ne_of_lt (lt_size_of_get? hget)

/-! ## One change -/

namespace Kept

/-- A box whose content is kept exists, and it is compound if it was. -/
theorem exists_get? (hkept : arena.Kept h term) :
    ∃ term', arena.get? h = some term' ∧ (term.isCompound = true → term'.isCompound = true) := by
  cases hkept with
  | same _ hget => exact ⟨term, hget, fun hcompound => hcompound⟩
  | longer items more hget => exact ⟨_, hget, fun _ => rfl⟩
  | moved _ box other _ hget _ => exact ⟨_, hget, fun _ => rfl⟩
  | filled _ inner _ hget => exact ⟨_, hget, fun _ => rfl⟩

/-- The children that a box had still lie below it. -/
theorem below (hkept : arena.Kept h term) (hmem : child ∈ term.children) :
    Relation.TransGen arena.Child h child := by
  cases hkept with
  | same _ hget => exact .single ⟨term, hget, hmem⟩
  | longer items more hget => exact .single ⟨_, hget, List.mem_append_left more hmem⟩
  | moved _ box other _ hget hbox =>
      exact .head ⟨_, hget, by simp [Term.children]⟩ (.single ⟨term, hbox, hmem⟩)
  | filled _ inner hplaceholder =>
      rcases hplaceholder with rfl | rfl <;> cases hmem

end Kept

/-- A change that keeps the content of every box extends the arena. -/
theorem extended_of_kept (hkept : ∀ h term, before.get? h = some term → after.Kept h term) :
    before.ExtendedBy after where
  valid h term hget := by
    obtain ⟨term', hafter, _⟩ := (hkept h term hget).exists_get?
    exact ⟨term', hafter⟩
  unions h items hget := by
    cases hkept h _ hget with
    | same _ hafter => exact ⟨[], by simpa using hafter⟩
    | longer _ more hafter => exact ⟨more, hafter⟩
    | moved _ _ _ hunion => exact absurd rfl (hunion items)
    | filled _ _ hplaceholder => rcases hplaceholder with heq | heq <;> cases heq
  others h term hget hterm := by
    have hbelow : ∀ child ∈ term.children, Relation.TransGen after.Child h child :=
      fun child hmem => (hkept h term hget).below hmem
    cases hkept h term hget with
    | same _ hafter => exact .inl hafter
    | longer items more hafter => exact .inr ⟨⟨_, hafter⟩, hbelow⟩
    | moved _ box other _ hafter => exact .inr ⟨⟨_, hafter⟩, hbelow⟩
    | filled _ _ hplaceholder => exact absurd hplaceholder hterm

namespace ExtendedBy

/-- Nothing has to change. -/
theorem refl (arena : Arena) : arena.ExtendedBy arena :=
  extended_of_kept fun _ term hget => .same term hget

/-- The children that a box had lie below it. -/
theorem below (hextended : before.ExtendedBy after) (hchild : before.Child h child) :
    Relation.TransGen after.Child h child := by
  obtain ⟨term, hget, hmem⟩ := hchild
  have hterm : ¬ term.IsPlaceholder := by
    intro hplaceholder
    rcases hplaceholder with rfl | rfl <;> cases hmem
  rcases hextended.others h term hget hterm with hafter | ⟨_, hbelow⟩
  · exact .single ⟨term, hafter, hmem⟩
  · exact hbelow child hmem

/-- What lay strictly below a box still does. -/
theorem trans_gen (hextended : before.ExtendedBy after)
    (hbelow : Relation.TransGen before.Child h child) : Relation.TransGen after.Child h child :=
  Relation.TransGen.closed (fun _ _ hchild => hextended.below hchild) _ _ hbelow

/-- What could be reached from a box still can. -/
theorem reaches (hextended : before.ExtendedBy after) (hreach : before.Reaches h child) :
    after.Reaches h child :=
  Relation.reflTransGen_closed (fun _ _ hchild => (hextended.below hchild).to_reflTransGen)
    _ _ hreach

/-- A cycle that could be reached from a box still can. -/
theorem reaches_cycle (hextended : before.ExtendedBy after)
    (hcycle : before.ReachesSome before.OnCycle h) : after.ReachesSome after.OnCycle h := by
  obtain ⟨box, hreach, hbox⟩ := hcycle
  exact ⟨box, hextended.reaches hreach, hextended.trans_gen hbox⟩

/-- Extensions compose: a content that was moved once is still found below its box. -/
theorem trans (hfirst : before.ExtendedBy middle) (hsecond : middle.ExtendedBy after) :
    before.ExtendedBy after where
  valid h term hget := by
    obtain ⟨term', hmiddle⟩ := hfirst.valid h term hget
    exact hsecond.valid h term' hmiddle
  unions h items hget := by
    obtain ⟨more, hmiddle⟩ := hfirst.unions h items hget
    obtain ⟨rest, hafter⟩ := hsecond.unions h _ hmiddle
    exact ⟨more ++ rest, by rw [hafter, List.append_assoc]⟩
  others h term hget hterm := by
    rcases hfirst.others h term hget hterm with hmiddle | ⟨⟨items, hmiddle⟩, hbelow⟩
    · exact hsecond.others h term hmiddle hterm
    · obtain ⟨more, hafter⟩ := hsecond.unions h items hmiddle
      exact .inr ⟨⟨_, hafter⟩, fun child hmem => hsecond.trans_gen (hbelow child hmem)⟩

end ExtendedBy

/-! ## New boxes and placeholders -/

/-- A new box extends the arena. -/
theorem extended_alloc (arena : Arena) (term : Term) : arena.ExtendedBy (arena.alloc term).2 := by
  refine extended_of_kept fun h old hget => .same old ?_
  rw [get?_alloc, if_neg (ne_size hget), hget]

/-- Only a placeholder is filled. -/
theorem refine_eq_cases (hfill : before.refineEq target inner = .ok after) :
    ∃ old, before.get? target = some old ∧ old.IsPlaceholder ∧
      after = before.set target (.eq inner) := by
  unfold refineEq at hfill
  obtain ⟨_, _, hfill⟩ := bind_eq_ok.mp hfill
  obtain ⟨old, hold, hfill⟩ := bind_eq_ok.mp hfill
  split at hfill
  · cases hfill
    exact ⟨_, get?_of_get hold, .inl rfl, rfl⟩
  · cases hfill
    exact ⟨_, get?_of_get hold, .inr rfl, rfl⟩
  · cases hfill

/-- Filling a placeholder extends the arena. -/
theorem extended_refine_eq (hfill : before.refineEq target inner = .ok after) :
    before.ExtendedBy after := by
  obtain ⟨old, hold, hplaceholder, rfl⟩ := refine_eq_cases hfill
  refine extended_of_kept fun h term hget => ?_
  by_cases htarget : target = h
  · subst htarget
    cases hold.symm.trans hget
    exact .filled old inner hplaceholder (get?_set_self (lt_size_of_get? hget) _)
  · exact .same term (by rw [get?_set_of_ne _ htarget, hget])

end Arena

end StringReach
