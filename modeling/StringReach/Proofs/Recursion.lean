import StringReach.Proofs.Graph
import StringReach.Term.Recursion

/-!
# What the recursion checker decides

A sweep fails exactly at boxes that are `Blocked`, and it raises its flag exactly for boxes that are
`Endless`. The invariant behind both is `Sweep.Valid`: the children of a finished box are settled,
and as long as the flag is down every finished box is grounded. `Swept` says what sweeping below
some boxes adds to it.
-/

namespace StringReach.Arena

/-- A sweep cannot go on at a box that does not exist, or at a call when calls are followed. -/
def Blocked (arena : Arena) (followCalls : Bool) (h : Handle) : Prop :=
  arena.get? h = none ∨ followCalls = true ∧ ∃ callee, arena.get? h = some (.call callee)

/-- A box cannot be unfolded to an end when it has no content yet or lies on a cycle. -/
def Endless (arena : Arena) (h : Handle) : Prop :=
  arena.get? h = some .pending ∨ arena.OnCycle h

/-- A sweep is done with a box once the box is finished, entered or without children. -/
def Settled (arena : Arena) (followCalls : Bool) (path : List Handle) (seen : Sweep)
    (h : Handle) : Prop :=
  ¬ arena.Blocked followCalls h ∧
    (h ∈ seen.finished ∨ h ∈ path ∨ ∀ child, ¬ arena.Child h child)

/-- What a sweep has learnt is right for the path that it stands on. -/
structure Sweep.Valid (arena : Arena) (followCalls : Bool) (path : List Handle)
    (seen : Sweep) : Prop where
  closed : ∀ h ∈ seen.finished, ∀ child, arena.Child h child →
    arena.Settled followCalls path seen child
  grounded : seen.recursive = false → ∀ h ∈ seen.finished, arena.Grounded (· ≠ .pending) h

/-- What a sweep below some boxes leaves behind. -/
structure Swept (arena : Arena) (followCalls : Bool) (path : List Handle) (before after : Sweep)
    (items : List Handle) : Prop where
  valid : after.Valid arena followCalls path
  finished : ∀ h ∈ before.finished, h ∈ after.finished
  recursive : before.recursive = true → after.recursive = true
  settled : ∀ h ∈ items, arena.Settled followCalls path after h
  grounded : after.recursive = false → ∀ h ∈ items, arena.Grounded (· ≠ .pending) h
  endless : after.recursive = true →
    before.recursive = true ∨ ∃ h ∈ items, arena.ReachesSome arena.Endless h

/-- The outcome of a sweep below some boxes: what it leaves behind, or a blocked box. -/
def SweepOutcome (arena : Arena) (followCalls : Bool) (path : List Handle) (before : Sweep)
    (items : List Handle) : Except Violation Sweep → Prop
  | .ok after => arena.Swept followCalls path before after items
  | .error _ => ∃ h ∈ items, arena.ReachesSome (arena.Blocked followCalls) h

variable {arena : Arena} {followCalls : Bool} {path path' : List Handle} {h root : Handle}
  {term : Term} {seen before middle after : Sweep} {items : List Handle}

/-- Below a grounded box there is neither a cycle nor a box without content. -/
theorem Grounded.not_reaches_endless (hground : arena.Grounded (· ≠ .pending) root) :
    ¬ arena.ReachesSome arena.Endless root := by
  rintro ⟨h, hreach, hpending | hcycle⟩
  · obtain ⟨term, hget, hterm, _⟩ := (hground.of_reaches hreach).content
    exact hterm (Option.some.inj (hget.symm.trans hpending))
  · exact (hground.of_reaches hreach).not_on_cycle hcycle

/-! ## Settled boxes -/

/-- A settled box stays settled when more boxes are finished or entered. -/
theorem Settled.mono (hsettled : arena.Settled followCalls path before h)
    (hdone : ∀ box, box ∈ before.finished ∨ box ∈ path → box ∈ after.finished ∨ box ∈ path') :
    arena.Settled followCalls path' after h := by
  obtain ⟨hopen, hfinished | hentered | hleaf⟩ := hsettled
  · exact ⟨hopen, or_assoc.mp (.inl (hdone h (.inl hfinished)))⟩
  · exact ⟨hopen, or_assoc.mp (.inl (hdone h (.inr hentered)))⟩
  · exact ⟨hopen, .inr (.inr hleaf)⟩

/-- Once the sweep has left every box that it entered, all that lies below a settled box is
settled. -/
theorem Settled.of_reaches (hsettled : arena.Settled followCalls [] seen root)
    (hvalid : seen.Valid arena followCalls []) (hreach : arena.Reaches root h) :
    arena.Settled followCalls [] seen h := by
  induction hreach with
  | refl => exact hsettled
  | tail _ hchild ih =>
      obtain ⟨_, hfinished | hentered | hleaf⟩ := ih
      · exact hvalid.closed _ hfinished _ hchild
      · cases hentered
      · exact absurd hchild (hleaf _)

/-- Once the sweep has left every box that it entered, no settled box reaches a blocked one. -/
theorem Settled.not_reaches_blocked (hsettled : arena.Settled followCalls [] seen root)
    (hvalid : seen.Valid arena followCalls []) :
    ¬ arena.ReachesSome (arena.Blocked followCalls) root := by
  rintro ⟨h, hreach, hblocked⟩
  exact (hsettled.of_reaches hvalid hreach).1 hblocked

/-- A box with content is blocked only as a call that is followed. -/
theorem not_blocked (hget : arena.get? h = some term)
    (hcall : ∀ callee, term = .call callee → followCalls = false) :
    ¬ arena.Blocked followCalls h := by
  rintro (hnone | ⟨hfollow, callee, hother⟩)
  · cases hget.symm.trans hnone
  · cases hget.symm.trans hother
    cases hfollow.symm.trans (hcall callee rfl)

/-- A box whose content has no children is settled unless it is blocked. -/
theorem settled_of_leaf (hget : arena.get? h = some term) (hleaf : term.isCompound = false)
    (hcall : ∀ callee, term = .call callee → followCalls = false) :
    arena.Settled followCalls path seen h := by
  refine ⟨not_blocked hget hcall, .inr (.inr ?_)⟩
  intro child hchild
  rw [child_iff hget, Term.children_eq_nil_of_not_compound hleaf] at hchild
  cases hchild

/-- A compound box is settled once it is finished or entered. -/
theorem settled_of_compound (hget : arena.get? h = some term) (hcompound : term.isCompound = true)
    (hdone : h ∈ seen.finished ∨ h ∈ path) : arena.Settled followCalls path seen h := by
  refine ⟨not_blocked hget ?_, or_assoc.mp (.inl hdone)⟩
  rintro callee rfl
  cases hcompound

/-! ## What sweeping adds -/

/-- Before anything is swept there is nothing to be wrong about. -/
theorem Sweep.valid_empty : Sweep.Valid arena followCalls path {} where
  closed _ hfinished := absurd hfinished Std.ExtTreeSet.not_mem_empty
  grounded _ _ hfinished := absurd hfinished Std.ExtTreeSet.not_mem_empty

/-- Entering a box keeps what was learnt. -/
theorem Sweep.Valid.enter (hvalid : seen.Valid arena followCalls path) (h : Handle) :
    seen.Valid arena followCalls (h :: path) where
  closed box hfinished child hchild :=
    (hvalid.closed box hfinished child hchild).mono fun _ hdone =>
      hdone.imp_right (List.mem_cons_of_mem h)
  grounded := hvalid.grounded

namespace Swept

/-- Sweeping below no box changes nothing. -/
theorem nil (hvalid : seen.Valid arena followCalls path) :
    arena.Swept followCalls path seen seen [] where
  valid := hvalid
  finished _ hfinished := hfinished
  recursive hrecursive := hrecursive
  settled _ hmem := by cases hmem
  grounded _ _ hmem := by cases hmem
  endless hrecursive := .inl hrecursive

/-- Sweeping below one box and then below others is sweeping below all of them. -/
theorem cons (hfirst : arena.Swept followCalls path before middle [h])
    (hrest : arena.Swept followCalls path middle after items) :
    arena.Swept followCalls path before after (h :: items) where
  valid := hrest.valid
  finished box hfinished := hrest.finished box (hfirst.finished box hfinished)
  recursive hrecursive := hrest.recursive (hfirst.recursive hrecursive)
  settled box hmem := by
    rcases List.mem_cons.mp hmem with rfl | hmem
    · exact (hfirst.settled box (by simp)).mono fun other hdone =>
        hdone.imp_left (hrest.finished other)
    · exact hrest.settled box hmem
  grounded hclear box hmem := by
    rcases List.mem_cons.mp hmem with rfl | hmem
    · refine hfirst.grounded ?_ box (by simp)
      -- A flag raised by the first sweep would still be up.
      exact Bool.eq_false_iff.mpr fun hraised =>
        Bool.eq_false_iff.mp hclear (hrest.recursive hraised)
    · exact hrest.grounded hclear box hmem
  endless hraised := by
    rcases hrest.endless hraised with hraised | ⟨box, hmem, hendless⟩
    · rcases hfirst.endless hraised with hraised | ⟨box, hmem, hendless⟩
      · exact .inl hraised
      · rw [List.mem_singleton.mp hmem] at hendless
        exact .inr ⟨h, by simp, hendless⟩
    · exact .inr ⟨box, List.mem_cons_of_mem h hmem, hendless⟩

/-- A settled box that adds nothing to what is known is passed by. -/
theorem pass (hvalid : seen.Valid arena followCalls path)
    (hsettled : arena.Settled followCalls path seen h)
    (hground : seen.recursive = false → arena.Grounded (· ≠ .pending) h) :
    arena.Swept followCalls path seen seen [h] where
  valid := hvalid
  finished _ hfinished := hfinished
  recursive hrecursive := hrecursive
  settled box hmem := by rwa [List.mem_singleton.mp hmem]
  grounded hclear box hmem := by rw [List.mem_singleton.mp hmem]; exact hground hclear
  endless hrecursive := .inl hrecursive

/-- At an endless box the flag is raised. -/
theorem raise (hvalid : seen.Valid arena followCalls path)
    (hsettled : arena.Settled followCalls path seen h) (hendless : arena.Endless h) :
    arena.Swept followCalls path seen { seen with recursive := true } [h] where
  valid := ⟨hvalid.closed, fun hclear => by cases hclear⟩
  finished _ hfinished := hfinished
  recursive _ := rfl
  settled box hmem := by rw [List.mem_singleton.mp hmem]; exact hsettled
  grounded hclear := by cases hclear
  endless _ := .inr ⟨h, by simp, h, .refl, hendless⟩

/-- When all its children are swept, a box is finished. -/
theorem finish (hget : arena.get? h = some term) (hcompound : term.isCompound = true)
    (hswept : arena.Swept followCalls (h :: path) before after term.children) :
    arena.Swept followCalls path before { after with finished := after.finished.insert h } [h] := by
  -- Leaving the box moves it from the path to the finished ones, so nothing gets unsettled.
  have hinsert : ∀ box, box ∈ after.finished ∨ box ∈ h :: path →
      box ∈ after.finished.insert h ∨ box ∈ path := by
    intro box hdone
    rcases hdone with hfinished | hentered
    · exact .inl (Std.ExtTreeSet.mem_insert.mpr (.inr hfinished))
    · rcases List.mem_cons.mp hentered with rfl | hentered
      · exact .inl Std.ExtTreeSet.mem_insert_self
      · exact .inr hentered
  have hground : after.recursive = false → arena.Grounded (· ≠ .pending) h := by
    intro hclear
    refine .intro h term hget ?_ (hswept.grounded hclear)
    rintro rfl
    cases hcompound
  constructor
  · constructor
    · intro box hfinished child hchild
      rcases Std.ExtTreeSet.mem_insert.mp hfinished with heq | hfinished
      · obtain rfl := Std.LawfulEqOrd.eq_of_compare heq
        exact (hswept.settled child ((child_iff hget).mp hchild)).mono hinsert
      · exact (hswept.valid.closed box hfinished child hchild).mono hinsert
    · intro hclear box hfinished
      rcases Std.ExtTreeSet.mem_insert.mp hfinished with heq | hfinished
      · obtain rfl := Std.LawfulEqOrd.eq_of_compare heq
        exact hground hclear
      · exact hswept.valid.grounded hclear box hfinished
  · exact fun box hfinished =>
      Std.ExtTreeSet.mem_insert.mpr (.inr (hswept.finished box hfinished))
  · exact hswept.recursive
  · intro box hmem
    rw [List.mem_singleton.mp hmem]
    exact settled_of_compound hget hcompound (.inl Std.ExtTreeSet.mem_insert_self)
  · intro hclear box hmem
    rw [List.mem_singleton.mp hmem]
    exact hground hclear
  · intro hraised
    rcases hswept.endless hraised with hraised | ⟨child, hmem, hendless⟩
    · exact .inl hraised
    · exact .inr ⟨h, by simp, hendless.of_child ((child_iff hget).mpr hmem)⟩

end Swept

/-! ## The sweep -/

/-- What a box without children adds is what sweeping below it should add. -/
theorem Sweep.pass_outcome (hget : arena.get? h = some term) (hleaf : term.isCompound = false)
    (hvalid : seen.Valid arena followCalls path) :
    arena.SweepOutcome followCalls path seen [h] (seen.pass followCalls h term) := by
  have hground : term ≠ .pending → arena.Grounded (· ≠ .pending) h := by
    intro hterm
    refine .intro h term hget hterm ?_
    rw [Term.children_eq_nil_of_not_compound hleaf]
    simp
  cases term with
  | pending => exact Swept.raise hvalid (settled_of_leaf hget hleaf (by simp)) (.inl hget)
  | call callee =>
      cases followCalls with
      | true => exact ⟨h, by simp, h, .refl, .inr ⟨rfl, callee, hget⟩⟩
      | false =>
          exact Swept.pass hvalid (settled_of_leaf hget hleaf fun _ _ => rfl)
            fun _ => hground (by simp)
  | top | bottom | terminal _ | parameter =>
      exact Swept.pass hvalid (settled_of_leaf hget hleaf (by simp)) fun _ => hground (by simp)
  | union _ | concat _ _ | eq _ => cases hleaf

mutual

/-- A sweep below a box leaves it swept, or finds a blocked box. -/
theorem sweep_outcome (path : Path) (seen : Sweep) (h : Handle)
    (hvalid : seen.Valid arena followCalls path.boxes) (hleads : arena.Leads path.boxes h) :
    arena.SweepOutcome followCalls path.boxes seen [h]
      (arena.sweep followCalls path seen h) := by
  rw [sweep]
  split
  · rename_i hget
    exact ⟨h, by simp, h, .refl, .inl hget⟩
  · rename_i term hget
    split
    · rename_i hleaf
      exact Sweep.pass_outcome hget (by simpa using hleaf) hvalid
    · rename_i hcompound
      have hcompound : term.isCompound = true := by simpa using hcompound
      split
      -- Finished before: the invariant has all there is to know.
      · rename_i hcontains
        have hfinished := Std.ExtTreeSet.mem_iff_contains.mpr hcontains
        exact Swept.pass hvalid (settled_of_compound hget hcompound (.inl hfinished))
          fun hclear => hvalid.grounded hclear h hfinished
      · split
        -- Entered and not left: the path leads from the box back to it.
        · rename_i hentered
          rw [Path.count_eq] at hentered
          have hmem := List.count_pos_iff.mp hentered
          exact Swept.raise hvalid (settled_of_compound hget hcompound (.inr hmem))
            (.inr (hleads.on_cycle hentered))
        · rename_i hentered
          have hroom : arena.room 0 (path.enter h) < arena.room 0 path :=
            room_enter_lt (lt_size_of_get? hget) (by omega)
          have hchildren := sweep_all_outcome (path.enter h) seen term.children
            (hvalid.enter h) fun child hmem => hleads.enter ((child_iff hget).mpr hmem)
          cases hsweep : arena.sweepAll followCalls (path.enter h) seen term.children with
          | error violation =>
              rw [hsweep] at hchildren
              obtain ⟨child, hmem, hblocked⟩ := hchildren
              exact ⟨h, by simp, hblocked.of_child ((child_iff hget).mpr hmem)⟩
          | ok after =>
              rw [hsweep] at hchildren
              exact Swept.finish hget hcompound hchildren
termination_by (arena.room 0 path, 0)

/-- A sweep below several boxes leaves all of them swept, or finds a blocked box. -/
theorem sweep_all_outcome (path : Path) (seen : Sweep) (items : List Handle)
    (hvalid : seen.Valid arena followCalls path.boxes)
    (hleads : ∀ h ∈ items, arena.Leads path.boxes h) :
    arena.SweepOutcome followCalls path.boxes seen items
      (arena.sweepAll followCalls path seen items) := by
  cases items with
  | nil =>
      rw [sweepAll]
      exact .nil hvalid
  | cons h rest =>
      rw [sweepAll]
      have hfirst := sweep_outcome path seen h hvalid (hleads h (by simp))
      cases hsweep : arena.sweep followCalls path seen h with
      | error violation =>
          rw [hsweep] at hfirst
          obtain ⟨box, hmem, hblocked⟩ := hfirst
          rw [List.mem_singleton.mp hmem] at hblocked
          exact ⟨h, by simp, hblocked⟩
      | ok middle =>
          rw [hsweep] at hfirst
          have hrest := sweep_all_outcome path middle rest hfirst.valid
            fun box hmem => hleads box (List.mem_cons_of_mem h hmem)
          show arena.SweepOutcome followCalls path.boxes seen (h :: rest)
            (arena.sweepAll followCalls path middle rest)
          cases hsweeps : arena.sweepAll followCalls path middle rest with
          | error violation =>
              rw [hsweeps] at hrest
              obtain ⟨box, hmem, hblocked⟩ := hrest
              exact ⟨box, List.mem_cons_of_mem h hmem, hblocked⟩
          | ok after =>
              rw [hsweeps] at hrest
              exact hfirst.cons hrest
termination_by (arena.room 0 path, items.length)

end

/-! ## The checker -/

/-- The outcome of a sweep that begins with nothing entered and nothing learnt. -/
theorem sweep_empty_outcome (arena : Arena) (followCalls : Bool) (root : Handle) :
    arena.SweepOutcome followCalls [] {} [root] (arena.sweep followCalls .empty {} root) :=
  sweep_outcome .empty {} root Sweep.valid_empty leads_nil

namespace Checker

/-- What earlier uses left in a checker does not matter. -/
theorem check_eq (checker : Checker) (arena : Arena) (root : Handle) :
    (checker.check arena root).1 =
      (arena.sweep checker.followCalls .empty {} root).map Sweep.recursive := by
  show (match arena.sweep checker.followCalls .empty {} root with
    | .ok seen => (Except.ok seen.recursive, _)
    | .error violation => (Except.error violation, _)).1 = _
  cases arena.sweep checker.followCalls .empty {} root <;> rfl

/-- A failed check has met a blocked box. -/
theorem reaches_blocked_of_check {checker : Checker} {violation : Violation}
    (hcheck : (checker.check arena root).1 = .error violation) :
    arena.ReachesSome (arena.Blocked checker.followCalls) root := by
  have houtcome := sweep_empty_outcome arena checker.followCalls root
  rw [check_eq] at hcheck
  cases hsweep : arena.sweep checker.followCalls .empty {} root with
  | error _ =>
      rw [hsweep] at houtcome
      obtain ⟨h, hmem, hblocked⟩ := houtcome
      rwa [List.mem_singleton.mp hmem] at hblocked
  | ok seen =>
      rw [hsweep] at hcheck
      cases hcheck

/-- A check that succeeds has swept everything below its root. -/
theorem swept_of_check {checker : Checker} {answer : Bool}
    (hcheck : (checker.check arena root).1 = .ok answer) :
    ∃ seen : Sweep, seen.recursive = answer ∧
      arena.Swept checker.followCalls [] {} seen [root] := by
  have houtcome := sweep_empty_outcome arena checker.followCalls root
  rw [check_eq] at hcheck
  cases hsweep : arena.sweep checker.followCalls .empty {} root with
  | error _ =>
      rw [hsweep] at hcheck
      cases hcheck
  | ok seen =>
      rw [hsweep] at hcheck houtcome
      exact ⟨seen, Except.ok.inj hcheck, houtcome⟩

/-- A check that succeeds has met no blocked box. -/
theorem not_reaches_blocked_of_check {checker : Checker} {answer : Bool}
    (hcheck : (checker.check arena root).1 = .ok answer) :
    ¬ arena.ReachesSome (arena.Blocked checker.followCalls) root := by
  obtain ⟨seen, _, hswept⟩ := swept_of_check hcheck
  exact (hswept.settled root (by simp)).not_reaches_blocked hswept.valid

/-- A check that finds nothing endless shows its root to be grounded. -/
theorem grounded_of_check {checker : Checker}
    (hcheck : (checker.check arena root).1 = .ok false) :
    arena.Grounded (· ≠ .pending) root := by
  obtain ⟨seen, hclear, hswept⟩ := swept_of_check hcheck
  exact hswept.grounded hclear root (by simp)

/-- A check that finds a term recursive has met an endless box. -/
theorem reaches_endless_of_check {checker : Checker}
    (hcheck : (checker.check arena root).1 = .ok true) : arena.ReachesSome arena.Endless root := by
  obtain ⟨seen, hraised, hswept⟩ := swept_of_check hcheck
  rcases hswept.endless hraised with hbefore | ⟨h, hmem, hendless⟩
  · cases hbefore
  · rwa [List.mem_singleton.mp hmem] at hendless

/-- Whether calls are followed or not, and whatever a checker was used for before, it fails exactly
if a blocked box can be reached, and otherwise finds a term recursive exactly if an endless box can
be reached. -/
theorem check_exact (checker : Checker) (arena : Arena) (root : Handle) :
    ((∃ violation, (checker.check arena root).1 = .error violation) ↔
      arena.ReachesSome (arena.Blocked checker.followCalls) root) ∧
    ((checker.check arena root).1 = .ok true ↔
      ¬ arena.ReachesSome (arena.Blocked checker.followCalls) root ∧
        arena.ReachesSome arena.Endless root) ∧
    ((checker.check arena root).1 = .ok false ↔
      ¬ arena.ReachesSome (arena.Blocked checker.followCalls) root ∧
        ¬ arena.ReachesSome arena.Endless root) := by
  cases hcheck : (checker.check arena root).1 with
  | error violation =>
      have hblocked := reaches_blocked_of_check hcheck
      simp [hblocked]
  | ok answer =>
      have hopen := not_reaches_blocked_of_check hcheck
      cases answer with
      | true =>
          have hendless := reaches_endless_of_check hcheck
          simp [hopen, hendless]
      | false =>
          have hends := (grounded_of_check hcheck).not_reaches_endless
          simp [hopen, hends]

end Checker

end StringReach.Arena
