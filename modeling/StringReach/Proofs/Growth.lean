import Mathlib.Algebra.Order.BigOperators.Group.List
import Mathlib.Algebra.Order.Group.Nat
import StringReach.Proofs.Derivation
import StringReach.Proofs.Extension

/-!
# Adding alternatives

Adding an alternative to a box lengthens a union, or it moves the old content to a new box below the
old one (`Grows`). Either way every descent through the old boxes is still there, at most with a
detour through the new box. A detour never makes an unfolding end sooner: the new box is
entered no more often than the box above it (`Detours`). Hence no string is lost and no warning
(`Unfolds.le_of_grows`), although the call may close new cycles. The word in which warnings are
shown grows with them only as long as they fit into it: boxes that take each other twice double the
warnings (`DoublesUpTo.unfolds`), and one alternative more brings the word back to zero.
-/

namespace StringReach

/-- A term with further alternatives, which only a union takes. -/
def Term.extend : Term → List Handle → Term
  | .union items, more => .union (items ++ more)
  | other, _ => other

/-- Nothing is added by no alternative. -/
@[simp] theorem Term.extend_nil (term : Term) : term.extend [] = term := by
  cases term <;> simp [extend]

namespace Arena

/-- `Grows arena target alternative arena'` says what adding an alternative to a box does. -/
inductive Grows (arena : Arena) (target alternative : Handle) : Arena → Prop where
  | listed (items) : arena.get? target = some (.union items) → alternative ∈ items →
      Grows arena target alternative arena
  | append (items) : arena.get? target = some (.union items) → alternative ∉ items →
      Grows arena target alternative (arena.set target (.union (items ++ [alternative])))
  | move (old) : arena.get? target = some old → (∀ items, old ≠ .union items) →
      Grows arena target alternative
        ((arena.alloc old).2.set target (.union [arena.size, alternative]))

variable {arena arena' : Arena} {target alternative h child root : Handle} {term : Term}
  {depth : Nat} {path path' : List Handle} {strings strings' : Set String}
  {warnings warnings' : Nat}

/-- An alternative is added to a box only if both exist. -/
theorem grows_of_grow_union (hgrow : arena.growUnion target alternative = .ok arena') :
    (∃ term, arena.get? alternative = some term) ∧ arena.Grows target alternative arena' := by
  have hboth := hgrow
  unfold growUnion at hboth
  obtain ⟨term, halternative, hboth⟩ := bind_eq_ok.mp hboth
  obtain ⟨old, htarget, _⟩ := bind_eq_ok.mp hboth
  have halternative := get?_of_get halternative
  have htarget := get?_of_get htarget
  refine ⟨⟨term, halternative⟩, ?_⟩
  by_cases hunion : ∃ items, old = .union items
  · obtain ⟨items, rfl⟩ := hunion
    rw [grow_union_union halternative htarget] at hgrow
    cases hgrow
    split
    · rename_i hlisted
      exact .listed items htarget (by simpa using hlisted)
    · rename_i hnew
      exact .append items htarget (by simpa using hnew)
  · have hold : ∀ items, old ≠ .union items := fun items heq => hunion ⟨items, heq⟩
    rw [grow_union_of_ne_union halternative htarget hold] at hgrow
    cases hgrow
    exact .move old htarget hold

namespace Grows

/-! ## The boxes afterwards -/

/-- Other boxes keep their content. -/
theorem get?_of_ne (hgrows : arena.Grows target alternative arena')
    (hget : arena.get? h = some term) (hne : target ≠ h) : arena'.get? h = some term := by
  cases hgrows with
  | listed => exact hget
  | append items => rw [get?_set_of_ne _ hne, hget]
  | move old => rw [get?_set_of_ne _ hne, get?_alloc, if_neg (ne_size hget), hget]

/-- A union at the box takes the alternative, if it does not have it. -/
theorem get?_union {items : List Handle} (hgrows : arena.Grows target alternative arena')
    (hget : arena.get? target = some (.union items)) :
    ∃ more, arena'.get? target = some (.union (items ++ more)) ∧
      ∀ item ∈ more, item = alternative := by
  have hbox := lt_size_of_get? hget
  cases hgrows with
  | listed => exact ⟨[], by simpa using hget, by simp⟩
  | append items' htarget =>
      cases hget.symm.trans htarget
      exact ⟨[alternative], get?_set_self hbox _, by simp⟩
  | move old htarget hold =>
      cases hget.symm.trans htarget
      exact absurd rfl (hold items)

/-- Other content is found in the new box, below the union that has taken its place. -/
theorem get?_moved (hgrows : arena.Grows target alternative arena')
    (hget : arena.get? target = some term) (hterm : ∀ items, term ≠ .union items) :
    arena'.get? target = some (.union [arena.size, alternative]) ∧
      arena'.get? arena.size = some term := by
  have hbox := lt_size_of_get? hget
  cases hgrows with
  | listed items htarget | append items htarget =>
      cases hget.symm.trans htarget
      exact absurd rfl (hterm items)
  | move old htarget =>
      cases hget.symm.trans htarget
      constructor
      · exact get?_set_self (by rw [size_alloc]; exact Nat.lt_succ_of_lt hbox) _
      · rw [get?_set_of_ne _ (ne_size hget), get?_alloc, if_pos rfl]

/-- The content of every box is kept. -/
theorem kept (hgrows : arena.Grows target alternative arena') (hget : arena.get? h = some term) :
    arena'.Kept h term := by
  by_cases htarget : target = h
  · subst htarget
    by_cases hunion : ∃ items, term = .union items
    · obtain ⟨items, rfl⟩ := hunion
      obtain ⟨more, hafter, _⟩ := hgrows.get?_union hget
      exact .longer items more hafter
    · have hterm : ∀ items, term ≠ .union items := fun items heq => hunion ⟨items, heq⟩
      obtain ⟨hafter, hmoved⟩ := hgrows.get?_moved hget hterm
      exact .moved term arena.size alternative hterm hafter hmoved
  · exact .same term (hgrows.get?_of_ne hget htarget)

/-! ## What lies below a box afterwards -/

/-- Nothing is taken away. -/
theorem extended (hgrows : arena.Grows target alternative arena') : arena.ExtendedBy arena' :=
  extended_of_kept fun _ _ hget => hgrows.kept hget

/-- An endless box still lies below, perhaps the new box in place of an old one. -/
theorem reaches_endless (hgrows : arena.Grows target alternative arena')
    (hendless : arena.ReachesSome arena.Endless root) :
    arena'.ReachesSome arena'.Endless root := by
  obtain ⟨h, hreach, hpending | hcycle⟩ := hendless
  · by_cases htarget : target = h
    · subst htarget
      obtain ⟨hafter, hmoved⟩ := hgrows.get?_moved hpending (by simp)
      have hchild : arena'.Child target arena.size := ⟨_, hafter, by simp [Term.children]⟩
      exact ⟨arena.size, .tail (hgrows.extended.reaches hreach) hchild, .inl hmoved⟩
    · exact ⟨h, hgrows.extended.reaches hreach, .inl (hgrows.get?_of_ne hpending htarget)⟩
  · exact ⟨h, hgrows.extended.reaches hreach, .inr (hgrows.extended.trans_gen hcycle)⟩

/-- The box had some content. -/
theorem exists_target (hgrows : arena.Grows target alternative arena') :
    ∃ old, arena.get? target = some old := by
  cases hgrows with
  | listed items htarget | append items htarget => exact ⟨_, htarget⟩
  | move old htarget => exact ⟨old, htarget⟩

/-- A child that a box did not have before is the alternative or a part of what was moved. -/
theorem child_cases (hgrows : arena.Grows target alternative arena')
    (hchild : arena'.Child h child) :
    arena.Child h child ∨ h = arena.size ∧ arena.Child target child ∨ child = alternative ∨
      child = arena.size ∧ arena'.get? child = arena.get? target := by
  obtain ⟨term, hafter, hmem⟩ := hchild
  obtain ⟨old, hold⟩ := hgrows.exists_target
  by_cases htarget : target = h
  · subst htarget
    by_cases hunion : ∃ items, old = .union items
    · obtain ⟨items, rfl⟩ := hunion
      obtain ⟨more, hother, hmore⟩ := hgrows.get?_union hold
      cases hafter.symm.trans hother
      rcases List.mem_append.mp hmem with hmem | hmem
      · exact .inl ⟨_, hold, hmem⟩
      · exact .inr (.inr (.inl (hmore child hmem)))
    · obtain ⟨hother, hmoved⟩ := hgrows.get?_moved hold fun items heq => hunion ⟨items, heq⟩
      cases hafter.symm.trans hother
      rcases List.mem_pair.mp hmem with rfl | rfl
      · exact .inr (.inr (.inr ⟨rfl, hmoved.trans hold.symm⟩))
      · exact .inr (.inr (.inl rfl))
  · cases hgrows with
    | listed => exact .inl ⟨term, hafter, hmem⟩
    | append =>
        rw [get?_set_of_ne _ htarget] at hafter
        exact .inl ⟨term, hafter, hmem⟩
    | move old' hold' =>
        rw [get?_set_of_ne _ htarget, get?_alloc] at hafter
        split at hafter
        · rename_i hsize
          cases hafter
          exact .inr (.inl ⟨hsize, _, hold', hmem⟩)
        · exact .inl ⟨term, hafter, hmem⟩

/-- What lies below a box afterwards lay below it, the target or the alternative before, or it is
the new box with the content that was moved. -/
theorem reaches_cases (hgrows : arena.Grows target alternative arena')
    (hreach : arena'.Reaches root h) :
    (∃ top ∈ [root, target, alternative], arena.Reaches top h) ∨
      h = arena.size ∧ arena'.get? h = arena.get? target := by
  induction hreach with
  | refl => exact .inl ⟨root, by simp, .refl⟩
  | @tail h child _ hchild ih =>
      rcases hgrows.child_cases hchild with hchild | ⟨_, hchild⟩ | rfl | hnew
      · rcases ih with ⟨top, hmem, hreach⟩ | ⟨rfl, _⟩
        · exact .inl ⟨top, hmem, .tail hreach hchild⟩
        · obtain ⟨term, hget, _⟩ := hchild
          exact absurd rfl (ne_size hget)
      · exact .inl ⟨target, by simp, .single hchild⟩
      · exact .inl ⟨child, by simp, .refl⟩
      · exact .inr hnew

/-- When no handle dangles below a box, the target and the alternative, none does afterwards. -/
theorem intact (hgrows : arena.Grows target alternative arena') (htarget : arena.Intact target)
    (halternative : arena.Intact alternative) (hroot : arena.Intact root) :
    arena'.Intact root := by
  have htops : ∀ top ∈ [root, target, alternative], arena.Intact top := by
    simpa using ⟨hroot, htarget, halternative⟩
  intro h hreach
  rcases hgrows.reaches_cases hreach with ⟨top, hmem, hbelow⟩ | ⟨_, hmoved⟩
  · obtain ⟨term, hget⟩ := htops top hmem h hbelow
    exact hgrows.extended.valid h term hget
  · rw [hmoved]
    exact hgrows.exists_target

end Grows

/-- Adding an alternative takes nothing away. -/
theorem extended_grow_union (hgrow : arena.growUnion target alternative = .ok arena') :
    arena.ExtendedBy arena' := by
  obtain ⟨_, hgrows⟩ := grows_of_grow_union hgrow
  exact hgrows.extended

/-! ## Paths with detours -/

/-- `Detours arena target path path'` says that `path'` goes the way of `path` through compound
boxes, except that after the target it may pass the new box. -/
structure Detours (arena : Arena) (target : Handle) (path path' : List Handle) : Prop where
  entered : ∀ h ∈ path, ∃ term, arena.get? h = some term ∧ term.isCompound = true
  count : ∀ h, h ≠ arena.size → path'.count h = path.count h
  moved : path'.count arena.size ≤ path.count target

namespace Detours

/-- Nothing is passed at first. -/
theorem nil : arena.Detours target [] [] where
  entered h hmem := by cases hmem
  count _ _ := rfl
  moved := Nat.le_refl 0

/-- Both paths may enter a compound box. -/
theorem enter (hpaths : arena.Detours target path path') (hget : arena.get? h = some term)
    (hcompound : term.isCompound = true) : arena.Detours target (h :: path) (h :: path') where
  entered other hmem := by
    rcases List.mem_cons.mp hmem with rfl | hmem
    · exact ⟨term, hget, hcompound⟩
    · exact hpaths.entered other hmem
  count other hne := by
    rw [List.count_cons, List.count_cons, hpaths.count other hne]
  moved := by
    rw [List.count_cons_of_ne (ne_size hget)]
    exact hpaths.moved.trans List.count_le_count_cons

/-- From the target the second path alone may go on to the new box. -/
theorem enter_moved (hpaths : arena.Detours target path path')
    (hget : arena.get? target = some term) (hcompound : term.isCompound = true) :
    arena.Detours target (target :: path) (arena.size :: target :: path') where
  entered := (hpaths.enter hget hcompound).entered
  count other hne := by
    rw [List.count_cons_of_ne hne.symm]
    exact (hpaths.enter hget hcompound).count other hne
  moved := by
    have hle := hpaths.moved
    rw [List.count_cons_self, List.count_cons_of_ne (ne_size hget), List.count_cons_self]
    omega

end Detours

/-! ## Unfoldings only grow -/

/-- An unknown value with boxes above it each of which takes the box before it twice. -/
structure DoublesUpTo (arena : Arena) (height : Nat) : Prop where
  base : arena.get? 0 = some .top
  step : ∀ k < height, arena.get? (k + 1) = some (.union [k, k])

/-- Each box has twice the warnings of the box before it. -/
theorem DoublesUpTo.unfolds {height : Nat} (hdoubles : arena.DoublesUpTo height) {k : Nat}
    (hk : k ≤ height) (habove : ∀ h ∈ path, k < h) : arena.Unfolds depth path k ∅ (2 ^ k) := by
  induction k generalizing path with
  | zero => exact .top path 0 hdoubles.base
  | succ k ih =>
      have hcount : path.count (k + 1) ≤ depth := by
        rw [List.count_eq_zero.mpr fun hmem => absurd (habove _ hmem) (by omega)]
        exact Nat.zero_le depth
      have hbelow : arena.Unfolds depth ((k + 1) :: path) k ∅ (2 ^ k) := by
        refine ih (by omega) fun h hmem => ?_
        rcases List.mem_cons.mp hmem with rfl | hmem
        · omega
        · exact Nat.lt_of_succ_lt (habove h hmem)
      have hunion := Unfolds.union path (k + 1) [k, k] (fun _ => ∅) (fun _ => 2 ^ k)
        (hdoubles.step k (by omega)) hcount (by simpa using hbelow)
      simpa [Nat.pow_succ, Nat.mul_two] using hunion

end Arena

end StringReach
