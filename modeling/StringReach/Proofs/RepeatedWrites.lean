import Mathlib.Algebra.BigOperators.Ring.List
import Mathlib.Algebra.Ring.Nat
import StringReach.Proofs.FieldWrites

/-!
# Writing a value again

A union takes no alternative twice. But the first value written to a field is kept apart from the
later ones, in a box that has its values, so it is not found when it is written again and becomes a
further alternative (`Holds.grow_again`). It has no strings that its copy does not have
(`Unfolds.append_copy`). Its warnings, however, are counted again, each time that an unfolding comes
by.
-/

namespace StringReach

/-- What does not succeed fails. -/
theorem exists_error {ε α : Type} {result : Except ε α} (hfails : ∀ value, result ≠ .ok value) :
    ∃ error, result = .error error := by
  cases result with
  | ok value => exact absurd rfl (hfails value)
  | error error => exact ⟨error, rfl⟩

namespace Arena

variable {arena arena' : Arena} {depth extra : Nat} {path items : List Handle}
  {target alternative copy h : Handle} {strings : Set String} {warnings : Nat} {other : Solution}

/-! ## An alternative of which there is a copy -/

/-- A union takes an alternative that it does not list. -/
theorem Grows.get?_append (hgrows : arena.Grows target alternative arena')
    (htarget : arena.get? target = some (.union items)) (hnew : alternative ∉ items) :
    arena'.get? target = some (.union (items ++ [alternative])) := by
  obtain ⟨listed, hlisted, hmem⟩ := hgrows.lists
  cases hgrows with
  | listed items' =>
      cases htarget.symm.trans hlisted
      exact absurd hmem hnew
  | append items' hget =>
      cases htarget.symm.trans hget
      exact get?_set_self (lt_size_of_get? htarget) _
  | move old hget hold =>
      cases htarget.symm.trans hget
      exact absurd rfl (hold items)

/-- Nothing but a union is changed by this. -/
theorem Grows.get?_other {term : Term} (hgrows : arena.Grows target alternative arena')
    (htarget : arena.get? target = some (.union items)) (hget : arena.get? h = some term)
    (hterm : ∀ items, term ≠ .union items) : h ≠ target ∧ arena'.get? h = some term := by
  have hne : h ≠ target := by
    intro heq
    subst heq
    cases hget.symm.trans htarget
    exact hterm items rfl
  exact ⟨hne, hgrows.get?_of_ne hget hne.symm⟩

/-- A union unfolds to what its last alternative does and to what the others do. -/
theorem Unfolds.union_concat {last : Handle} {parts : Handle → Set String} {counts : Handle → Nat}
    (hget : arena.get? h = some (.union (items ++ [last]))) (hnew : last ∉ items)
    (hcount : path.count h ≤ depth)
    (hitems : ∀ item ∈ items, arena.Unfolds depth (h :: path) item (parts item) (counts item))
    (hlast : arena.Unfolds depth (h :: path) last strings warnings) :
    arena.Unfolds depth path h ((⋃ item ∈ items, parts item) ∪ strings)
      ((items.map counts).sum + warnings) := by
  have hne : ∀ item ∈ items, item ≠ last := by
    intro item hmem heq
    exact hnew (heq ▸ hmem)
  have hstrings : ⋃ item ∈ items ++ [last], Function.update parts last strings item =
      (⋃ item ∈ items, parts item) ∪ strings := by
    have hsame : ⋃ item ∈ items, Function.update parts last strings item =
        ⋃ item ∈ items, parts item :=
      Set.iUnion₂_congr fun item hmem => Function.update_of_ne (hne item hmem) _ _
    simp only [List.mem_append, List.mem_singleton, Set.iUnion_or, Set.iUnion_union_distrib,
      Set.iUnion_iUnion_eq_left, Function.update_self, hsame]
  have hwarnings : ((items ++ [last]).map (Function.update counts last warnings)).sum =
      (items.map counts).sum + warnings := by
    have hsame : items.map (Function.update counts last warnings) = items.map counts :=
      List.map_congr_left fun item hmem => Function.update_of_ne (hne item hmem) _ _
    simp [hsame]
  rw [← hstrings, ← hwarnings]
  refine .union path h _ _ _ hget hcount ?_
  intro item hmem
  rcases List.mem_append.mp hmem with hmem | hmem
  · rw [Function.update_of_ne (hne item hmem), Function.update_of_ne (hne item hmem)]
    exact hitems item hmem
  · rw [List.mem_singleton.mp hmem, Function.update_self, Function.update_self]
    exact hlast

/-- When a union takes an alternative of which it has a copy, all unfoldings keep their strings. The
warnings of the alternative are added each time the union is entered, so at least once if the
unfolding starts there. -/
theorem Unfolds.append_copy (hunfolds : arena.Unfolds depth path h strings warnings)
    (hgrows : arena.Grows target alternative arena')
    (htarget : arena.get? target = some (.union items)) (hnew : alternative ∉ items)
    (hmem : copy ∈ items) (hcopy : arena'.HasValue copy other)
    (halternative : arena'.HasValue alternative other) (hleads : arena'.Leads path h) :
    ∃ times, arena'.Unfolds depth path h strings (warnings + times * other.warnings) ∧
      (h = target → path.count h ≤ depth → 0 < times) := by
  have hleaf : ∀ {path box strings warnings term}, arena.get? box = some term →
      (∀ items, term ≠ .union items) →
      (arena'.get? box = some term → arena'.Unfolds depth path box strings warnings) →
      ∃ times, arena'.Unfolds depth path box strings (warnings + times * other.warnings) ∧
        (box = target → path.count box ≤ depth → 0 < times) := by
    intro path box strings warnings term hget hterm hunfolds
    obtain ⟨hne, hafter⟩ := hgrows.get?_other htarget hget hterm
    exact ⟨0, by simpa using hunfolds hafter, fun heq => absurd heq hne⟩
  induction hunfolds with
  | top path h hget => exact hleaf hget (by simp) (.top path h)
  | bottom path h hget => exact hleaf hget (by simp) (.bottom path h)
  | terminal path h value hget => exact hleaf hget (by simp) (.terminal path h value)
  | parameter path h hget => exact hleaf hget (by simp) (.parameter path h)
  | call path h callee hget => exact hleaf hget (by simp) (.call path h callee)
  | pending path h hget => exact hleaf hget (by simp) (.pending path h)
  | cut path h term hget hcompound hcount =>
      obtain ⟨term', hafter, hcompound'⟩ := (hgrows.kept hget).exists_get?
      exact ⟨0, by simpa using .cut path h term' hafter (hcompound' hcompound) hcount, by omega⟩
  | union path h items' parts counts hget hcount _ ih =>
      have hinside : ∀ item ∈ items', arena'.Leads (h :: path) item := by
        intro item hitem
        obtain ⟨more, hlonger⟩ := hgrows.extended.unions h items' hget
        exact hleads.enter ⟨_, hlonger, List.mem_append_left more hitem⟩
      have hparts : ∀ item ∈ items', ∃ times, arena'.Unfolds depth (h :: path) item (parts item)
          (counts item + times * other.warnings) := by
        intro item hitem
        obtain ⟨times, hafter, _⟩ := ih item hitem (hinside item hitem)
        exact ⟨times, hafter⟩
      choose! times hparts using hparts
      have hsum : (items'.map fun item => counts item + times item * other.warnings).sum =
          (items'.map counts).sum + (items'.map times).sum * other.warnings := by
        rw [List.sum_map_add, List.sum_map_mul_right]
      by_cases heq : h = target
      · subst heq
        cases hget.symm.trans htarget
        have hafter := hgrows.get?_append hget hnew
        -- The copy unfolds to the strings of the alternative, which are there already.
        obtain ⟨hlanguage, _⟩ := (hparts copy hmem).deterministic
          (hcopy.stable.unfolds depth _ (hinside copy hmem))
        have hcovered : (⋃ item ∈ items, parts item) ∪ other.language =
            ⋃ item ∈ items, parts item := by
          rw [Set.union_eq_left, ← hlanguage]
          exact fun text htext => Set.mem_iUnion₂_of_mem hmem htext
        have hlast := halternative.stable.unfolds depth (h :: path)
          (hleads.enter ⟨_, hafter, by simp [Term.children]⟩)
        have hunion := Unfolds.union_concat hafter hnew hcount hparts hlast
        rw [hcovered, hsum, Nat.add_assoc, ← Nat.succ_mul] at hunion
        exact ⟨_, hunion, fun _ _ => Nat.succ_pos _⟩
      · have hafter := hgrows.get?_of_ne hget (Ne.symm heq)
        have hunion := Unfolds.union path h items' parts _ hafter hcount hparts
        rw [hsum] at hunion
        exact ⟨_, hunion, fun hself => absurd hself heq⟩
  | concat path h left right leftStrings rightStrings leftWarnings rightWarnings hget hcount _ _
      ihleft ihright =>
      obtain ⟨hne, hafter⟩ := hgrows.get?_other htarget hget (by simp)
      obtain ⟨first, hleft, _⟩ := ihleft (hleads.enter ⟨_, hafter, by simp [Term.children]⟩)
      obtain ⟨second, hright, _⟩ := ihright (hleads.enter ⟨_, hafter, by simp [Term.children]⟩)
      have hconcat := Unfolds.concat path h left right _ _ _ _ hafter hcount hleft hright
      rw [Nat.add_add_add_comm, ← Nat.add_mul] at hconcat
      exact ⟨_, hconcat, fun heq => absurd heq hne⟩
  | eq path h inner strings warnings hget hcount _ ih =>
      obtain ⟨hne, hafter⟩ := hgrows.get?_other htarget hget (by simp)
      obtain ⟨times, hinner, _⟩ := ih (hleads.enter ⟨_, hafter, by simp [Term.children]⟩)
      exact ⟨times, .eq path h inner _ _ hafter hcount hinner, fun heq => absurd heq hne⟩

/-! ## Solvers -/

/-- `Repeats arena arena' h extra` says that a box has the same solutions in a second arena, except
that some warnings are counted more often there. -/
structure Repeats (arena arena' : Arena) (h : Handle) (extra : Nat) : Prop where
  intact : arena'.Intact h → arena.Intact h
  ends : arena'.Grounded (· ≠ .pending) h ↔ arena.Grounded (· ≠ .pending) h
  bounded : ∀ depth before, arena.solveBounded depth h = .ok before → ∃ times, 0 < times ∧
    arena'.solveBounded depth h =
      .ok { before with warnings := before.warnings + times * extra }

/-- No solver gives a box new strings, or a solution that it did not have. -/
theorem Repeats.solve (hrepeats : arena.Repeats arena' h extra)
    {solve : Arena → Handle → Except Violation Solution}
    (hsolver : solve = solveAcyclic ∨ ∃ depth, solve = fun arena => arena.solveBounded depth) :
    (∃ before times, 0 < times ∧ solve arena h = .ok before ∧
      solve arena' h = .ok { before with warnings := before.warnings + times * extra }) ∨
    ∃ violation violation', solve arena h = .error violation ∧
      solve arena' h = .error violation' := by
  rcases hsolver with rfl | ⟨depth, rfl⟩
  · by_cases hground : arena.Grounded (· ≠ .pending) h
    · obtain ⟨before, hbefore, hvalue⟩ := hground.exists_solution
      obtain ⟨now, hnow, hvalue'⟩ := (hrepeats.ends.mpr hground).exists_solution
      obtain ⟨times, htimes, hsame⟩ := hrepeats.bounded 0 before
        (solve_bounded_of_unfolds (hvalue.stable.unfolds 0 [] leads_nil))
      rw [solve_bounded_of_unfolds (hvalue'.stable.unfolds 0 [] leads_nil)] at hsame
      cases hsame
      exact .inl ⟨before, times, htimes, hbefore, hnow⟩
    · obtain ⟨violation, hbefore⟩ := exists_error fun solution hsolve =>
        hground (has_value_of_solve_acyclic hsolve).ends
      obtain ⟨violation', hnow⟩ := exists_error fun solution hsolve =>
        hground (hrepeats.ends.mp (has_value_of_solve_acyclic hsolve).ends)
      exact .inr ⟨violation, violation', hbefore, hnow⟩
  · by_cases hintact : arena.Intact h
    · obtain ⟨before, hbefore, _⟩ := solve_bounded_unfolds hintact depth
      obtain ⟨times, htimes, hnow⟩ := hrepeats.bounded depth before hbefore
      exact .inl ⟨before, times, htimes, hbefore, hnow⟩
    · obtain ⟨violation, hbefore⟩ := exists_error fun solution hsolve =>
        hintact (intact_of_solve_bounded hsolve)
      obtain ⟨violation', hnow⟩ := exists_error fun solution hsolve =>
        hintact (hrepeats.intact (intact_of_solve_bounded hsolve))
      exact .inr ⟨violation, violation', hbefore, hnow⟩

namespace Grows

/-- A handle that dangles below a box still does when a union takes an alternative. -/
theorem intact_before (hgrows : arena.Grows target alternative arena')
    (htarget : arena.get? target = some (.union items)) (hintact : arena'.Intact h) :
    arena.Intact h := by
  intro box hreach
  obtain ⟨term, hget⟩ := hintact box (hgrows.extended.reaches hreach)
  cases hgrows with
  | listed => exact ⟨term, hget⟩
  | append items' =>
      have hbox := lt_size_of_get? hget
      rw [size_set] at hbox
      exact ⟨_, Array.getElem?_eq_getElem hbox⟩
  | move old hold hother =>
      cases htarget.symm.trans hold
      exact absurd rfl (hother items)

/-- A union that takes an alternative of which it has a copy repeats its solutions. -/
theorem repeats_of_copy (hgrows : arena.Grows target alternative arena')
    (htarget : arena.get? target = some (.union items)) (hnew : alternative ∉ items)
    (hmem : copy ∈ items) (hcopy : arena.HasValue copy other)
    (halternative : arena.HasValue alternative other) (hfar : ¬ arena.Reaches copy target)
    (hapart : ¬ arena.Reaches alternative target) :
    arena.Repeats arena' target other.warnings where
  intact := hgrows.intact_before htarget
  ends := by
    constructor
    · intro hground
      have hintact := hgrows.intact_before htarget hground.intact
      obtain ⟨recursive, hcheck⟩ := hintact.exists_check
      cases recursive with
      | false => exact hintact.check_clear_iff.mp hcheck
      | true =>
          have hendless := hgrows.reaches_endless (hintact.check_raised_iff.mp hcheck)
          exact absurd hendless hground.not_reaches_endless
    · intro hground
      obtain ⟨before, _, hbefore⟩ := hground.exists_solution
      refine (hgrows.has_value ?_ hbefore halternative hapart).ends
      intro hlists
      obtain ⟨listed, hlisted, hmem⟩ := hlists
      cases htarget.symm.trans hlisted
      exact hnew hmem
  bounded depth before hsolve := by
    obtain ⟨found, hfound, hunfolds⟩ :=
      solve_bounded_unfolds (intact_of_solve_bounded hsolve) depth
    cases hsolve.symm.trans hfound
    obtain ⟨times, hafter, htimes⟩ := hunfolds.append_copy hgrows htarget hnew hmem
      (hgrows.has_value_of_apart hcopy hfar) (hgrows.has_value_of_apart halternative hapart)
      leads_nil
    exact ⟨times, htimes rfl (Nat.zero_le depth), solve_bounded_of_unfolds hafter⟩

/-- So does a box that has the values of another and takes this as an alternative. -/
theorem repeats_of_eq (hgrows : arena.Grows target alternative arena')
    (htarget : arena.get? target = some (.eq alternative))
    (halternative : arena.HasValue alternative other)
    (hapart : ¬ arena.Reaches alternative target) :
    arena.Repeats arena' target other.warnings := by
  have hbefore : arena.HasValue target other :=
    .assemble htarget (by simp) (.cons halternative .nil)
  have hnew : ¬ arena.Lists target alternative := by
    intro hlists
    obtain ⟨listed, hlisted, _⟩ := hlists
    cases htarget.symm.trans hlisted
  have hafter := hgrows.has_value hnew hbefore halternative hapart
  refine ⟨fun _ => hbefore.ends.intact, iff_of_true hafter.ends hbefore.ends, ?_⟩
  intro depth before hsolve
  rw [solve_bounded_of_unfolds (hbefore.stable.unfolds depth [] leads_nil)] at hsolve
  cases hsolve
  refine ⟨1, Nat.one_pos, ?_⟩
  have htwice : other.merge other =
      { other with warnings := other.warnings + 1 * other.warnings } := by
    refine Solution.ext_language ?_ ?_
    · rw [Solution.language_merge, Set.union_self]
      rfl
    · rw [Nat.one_mul]
      rfl
  rw [← htwice]
  exact solve_bounded_of_unfolds (hafter.stable.unfolds depth [] leads_nil)

end Grows

end Arena

namespace Session

variable {session : Session} {arena' : Arena} {box value : Handle} {stored : List Handle}
  {other : Solution}

/-- A value written again is found in the union of the field if it was not only the first one. If it
was, it becomes an alternative, of which there is a copy. -/
theorem Holds.grow_again (hholds : session.Holds box stored) (hmem : value ∈ stored)
    (hvalue : session.arena.HasValue value other) (hapart : ¬ session.arena.Reaches value box)
    (hgrows : session.arena.Grows box value arena') :
    value ∈ stored.tail ∧ arena' = session.arena ∨
      value ∉ stored.tail ∧ session.arena.Repeats arena' box other.warnings := by
  cases hholds with
  | nothing => cases hmem
  | one first hget =>
      obtain rfl : value = first := List.mem_singleton.mp hmem
      exact .inr ⟨by simp, hgrows.repeats_of_eq hget hvalue hapart⟩
  | more first later moved items hget hmoved _ hitems hlater =>
      by_cases hlate : value ∈ later
      · exact .inl ⟨hlate, hgrows.eq_of_lists ⟨_, hget, hlater value hlate⟩⟩
      · obtain rfl : value = first := (List.mem_cons.mp hmem).resolve_right hlate
        have hcopy : session.arena.HasValue moved other :=
          .assemble hmoved (by simp) (.cons hvalue .nil)
        have hchild : session.arena.Child moved value := ⟨_, hmoved, by simp [Term.children]⟩
        have hne : value ≠ moved := by
          intro heq
          exact hvalue.ends.not_on_cycle (.single (heq ▸ hchild))
        have hnew : value ∉ moved :: items := by
          intro hlisted
          rcases List.mem_cons.mp hlisted with heq | hlisted
          · exact hne heq
          · exact hlate (hitems value hlisted)
        have hfar : ¬ session.arena.Reaches moved box := by
          refine Arena.not_reaches_of_eq hmoved ?_ hapart
          intro heq
          subst heq
          cases hget.symm.trans hmoved
        exact .inr ⟨hlate, hgrows.repeats_of_copy hget hnew (by simp) hcopy hvalue hfar hapart⟩

/-- The box of a field that was written has content. -/
theorem Holds.exists_content (hholds : session.Holds box stored) (hmem : value ∈ stored) :
    ∃ term, session.arena.get? box = some term ∧ term ≠ .pending := by
  cases hholds with
  | nothing => cases hmem
  | one _ hget | more _ _ _ _ hget => exact ⟨_, hget, by simp⟩

/-- Writing a value to a field again adds no strings to the field. Let calls make boxes, load and
store in a session that knows no fields at first, and let them write a value that is not recursive
to a field whose box does not lie below it. Then the value can be written again, and each solver
finds the same strings for the field as before, or fails as before. It counts as many warnings as
before exactly if the value has none or was written after the first value of the field: only then is
it found in the union of the field. -/
theorem store_again_keeps_strings (arena : Arena) (calls : List Call) (session : Session)
    (field : String) (box value : Handle) (followCalls : Bool)
    (hcalls : ∀ call ∈ calls, call.throughFields = true)
    (hrun : (run { arena } calls).2 = session) (hfind : session.fields.find? field = some box)
    (hwritten : value ∈ written { arena } calls field)
    (hclear : session.arena.isRecursive followCalls value = .ok false)
    (hapart : ¬ session.arena.Reaches value box) :
    ∃ after other, (Call.store field value).perform session = .ok (some box) after ∧
      session.arena.solveAcyclic value = .ok other ∧
      ∀ solve : Arena → Handle → Except Violation Solution,
        (solve = Arena.solveAcyclic ∨ ∃ depth, solve = fun arena => arena.solveBounded depth) →
        (∃ before now, solve session.arena box = .ok before ∧ solve after.arena box = .ok now ∧
          now.strings = before.strings ∧
          (now.warnings = before.warnings ↔
            other.warnings = 0 ∨ value ∈ (written { arena } calls field).tail)) ∨
        ∃ violation violation', solve session.arena box = .error violation ∧
          solve after.arena box = .error violation' := by
  subst hrun
  have hholds := ((Recorded.empty arena).run hcalls).holds field box hfind
  rw [List.nil_append] at hholds
  obtain ⟨other, hother, hvalue⟩ := (Arena.Checker.grounded_of_check hclear).exists_solution
  obtain ⟨term, hterm⟩ := hvalue.ends.intact value .refl
  obtain ⟨old, hold, hfilled⟩ := hholds.exists_content hwritten
  obtain ⟨arena', hgrow⟩ := Arena.exists_grow_union hold hterm
  obtain ⟨_, hgrows⟩ := Arena.grows_of_grow_union hgrow
  refine ⟨{ (run { arena } calls).2 with arena := arena' }, other, ?_, hother, ?_⟩
  · rw [Call.perform_eq, Session.apply, Fields.store_grow hfind hold hfilled hgrow]
    rfl
  · intro solve hsolver
    rcases hholds.grow_again hwritten hvalue hapart hgrows with ⟨hlate, rfl⟩ | ⟨hfirst, hrepeats⟩
    · cases hsolve : solve (run { arena } calls).2.arena box with
      | ok before => exact .inl ⟨before, before, rfl, rfl, rfl, by simp [hlate]⟩
      | error violation => exact .inr ⟨violation, violation, rfl, rfl⟩
    · rcases hrepeats.solve hsolver with ⟨before, times, htimes, hbefore, hnow⟩ | hfails
      · refine .inl ⟨before, _, hbefore, hnow, rfl, ?_⟩
        simp [hfirst, Nat.pos_iff_ne_zero.mp htimes]
      · exact .inr hfails

/-- A field is read before it is written, and what was read comes back to it with a letter more. The
unknown value is written first, then the longer one, then the letter. -/
def growingCalls : List Call :=
  [.alloc .top, .alloc (.terminal "b"), .load "x", .alloc (.concat 2 1), .store "x" 0,
    .store "x" 3, .store "x" 1]

/-- The session after these calls, in which the field is part of a cycle. -/
def growingSession : Session :=
  (run {} growingCalls).2

/-- When the unknown value is written to the field again, its warning counts again at every depth.
The letter has none. -/
theorem store_again_keeps_strings_growing :
    (∀ call ∈ growingCalls, call.throughFields = true) ∧
    growingSession.fields.find? "x" = some 2 ∧ growingSession.arena.OnCycle 2 ∧
    written {} growingCalls "x" = [0, 3, 1] ∧
    (∀ value ∈ [0, 1], growingSession.arena.isRecursive false value = .ok false ∧
      ¬ growingSession.arena.Reaches value 2) ∧
    ∀ value ∈ [0, 1], ∃ after,
      (Call.store "x" value).perform growingSession = .ok (some 2) after ∧
      ∀ depth, ∃ before now, growingSession.arena.solveBounded depth 2 = .ok before ∧
        after.arena.solveBounded depth 2 = .ok now ∧ now.strings = before.strings ∧
        (now.warnings = before.warnings ↔ value = 1) := by
  have hcalls : ∀ call ∈ growingCalls, call.throughFields = true := by decide
  have hwritten : written {} growingCalls "x" = [0, 3, 1] := rfl
  have hdown : growingSession.arena.Child 2 3 := ⟨.union [4, 3, 1], rfl, by decide⟩
  have hback : growingSession.arena.Child 3 2 := ⟨.concat 2 1, rfl, by decide⟩
  have hintact : growingSession.arena.Intact 2 :=
    Arena.intact_of_children_lt (by decide) (by decide)
  have hvalues : ∀ value ∈ [0, 1], ∃ other, growingSession.arena.HasValue value other ∧
      (other.warnings = 0 ∨ value ∈ [3, 1] ↔ value = 1) := by
    have htop : growingSession.arena.get? 0 = some .top := rfl
    have hletter : growingSession.arena.get? 1 = some (.terminal "b") := rfl
    intro value hvalue
    rcases List.mem_pair.mp hvalue with rfl | rfl
    · exact ⟨.warning, .assemble htop (by simp) .nil, by decide⟩
    · exact ⟨.literal "b", .assemble hletter (by simp) .nil, by decide⟩
  have hclear : ∀ value ∈ [0, 1], growingSession.arena.isRecursive false value = .ok false ∧
      ¬ growingSession.arena.Reaches value 2 := by
    intro value hvalue
    obtain ⟨other, hother, _⟩ := hvalues value hvalue
    refine ⟨hother.ends.intact.check_clear_iff.mpr hother.ends, ?_⟩
    intro hreach
    have hbelow : 2 ∈ [0, 1] := Arena.mem_of_reaches (by decide) hvalue hreach
    exact absurd hbelow (by decide)
  refine ⟨hcalls, rfl, .head hdown (.single hback), hwritten, hclear, ?_⟩
  intro value hvalue
  have hmem : value ∈ written {} growingCalls "x" := by
    rw [hwritten]
    rcases List.mem_pair.mp hvalue with rfl | rfl <;> decide
  obtain ⟨after, other, hstore, hother, hsolvers⟩ := store_again_keeps_strings .empty growingCalls
    growingSession "x" 2 value false hcalls rfl rfl hmem (hclear value hvalue).1
    (hclear value hvalue).2
  obtain ⟨known, hknown, hcounts⟩ := hvalues value hvalue
  cases hknown.solve_acyclic.symm.trans hother
  refine ⟨after, hstore, ?_⟩
  intro depth
  rcases hsolvers _ (.inr ⟨depth, rfl⟩) with
    ⟨before, now, hbefore, hnow, hstrings, hwarnings⟩ | ⟨violation, _, hfails, _⟩
  · exact ⟨before, now, hbefore, hnow, hstrings, hwarnings.trans hcounts⟩
  · obtain ⟨solution, hsolve, _⟩ := Arena.solve_bounded_unfolds hintact depth
    cases hfails.symm.trans hsolve

/-- Calls that write an unknown value to a field. -/
def unknownCalls : List Call :=
  [.alloc .top, .store "f" 0]

/-- The session after these calls. -/
def unknownSession : Session :=
  (run {} unknownCalls).2

/-- The boxes after the unknown value was written again. -/
def unknownTwice : Arena where
  slots := #[.top, .union [2, 0], .eq 0]

/-- The unknown value is not recursive, and the box of the field does not lie below it. Still the
field has one warning more when the value is written to it again. -/
theorem store_again_adds_warning :
    (∀ call ∈ unknownCalls, call.throughFields = true) ∧
    unknownSession.fields.find? "f" = some 1 ∧ 0 ∈ written {} unknownCalls "f" ∧
    unknownSession.arena.isRecursive false 0 = .ok false ∧
    ¬ unknownSession.arena.Reaches 0 1 ∧
    ∃ after before now, (Call.store "f" 0).perform unknownSession = .ok (some 1) after ∧
      unknownSession.arena.solveAcyclic 1 = .ok before ∧ before.warnings = 1 ∧
      after.arena.solveAcyclic 1 = .ok now ∧ now.warnings = 2 := by
  have htop : unknownSession.arena.get? 0 = some .top := rfl
  have heq : unknownSession.arena.get? 1 = some (.eq 0) := rfl
  have hvalue : unknownSession.arena.HasValue 0 .warning := .assemble htop (by simp) .nil
  have hbox : unknownSession.arena.HasValue 1 .warning :=
    .assemble heq (by simp) (.cons hvalue .nil)
  have hstore : (Call.store "f" 0).perform unknownSession =
      .ok (some 1) { unknownSession with arena := unknownTwice } := rfl
  have htop' : unknownTwice.get? 0 = some .top := rfl
  have hmoved : unknownTwice.get? 2 = some (.eq 0) := rfl
  have hunion : unknownTwice.get? 1 = some (.union [2, 0]) := rfl
  have hvalue' : unknownTwice.HasValue 0 .warning := .assemble htop' (by simp) .nil
  have hbox' : unknownTwice.HasValue 1 (.mergeAll [.warning, .warning]) :=
    .assemble hunion (by simp)
      (.cons (.assemble hmoved (by simp) (.cons hvalue' .nil)) (.cons hvalue' .nil))
  refine ⟨by decide, rfl, by decide, ?_, ?_, ?_⟩
  · exact hvalue.ends.intact.check_clear_iff.mpr hvalue.ends
  · intro hreach
    have hbelow : 1 ∈ [0] := Arena.mem_of_reaches (by decide) (by decide) hreach
    exact absurd hbelow (by decide)
  · exact ⟨_, _, _, hstore, hbox.solve_acyclic, rfl, hbox'.solve_acyclic, rfl⟩

end Session

end StringReach
