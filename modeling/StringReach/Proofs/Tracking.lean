import StringReach.Proofs.Convergence
import StringReach.Proofs.PointOrder

/-!
# Which points a report is about

The points of a report are the operands of the reflective calls of the methods that the last
iteration has collected, each once and in the order of points (`report_tracks_operands`). They are
found by halving, which is right because the order in which they stand is the one by which they are
looked up (`Results.find?_eq_some_iff`).
-/

namespace StringReach

/-! ## Looking up a point -/

namespace Results

/-- The entries of results are in order, and no point has two of them. -/
def Ordered (results : Results) : Prop :=
  results.points.Pairwise fun earlier later => earlier.point.Before later.point

/-- In entries that are in order, a window is narrowed to the entry that it holds for a point. -/
theorem narrow_eq {points : List ResolvedPoint}
    (hordered : points.Pairwise fun earlier later => earlier.point.Before later.point)
    {entry : ResolvedPoint} {index : Nat} (hentry : points[index]? = some entry)
    (start size : Nat) (hstart : start ≤ index) (hindex : index < start + size)
    (hsize : start + size ≤ points.length) :
    narrow points.toArray entry.point start size = index := by
  induction size using Nat.strong_induction_on generalizing start with
  | h size ih =>
      rw [narrow]
      split
      · omega
      · have hmiddle : start + size / 2 < points.length := by omega
        obtain ⟨hlength, rfl⟩ := List.getElem?_eq_some_iff.mp hentry
        have hlt := List.pairwise_iff_getElem.mp hordered
        have hget : points.toArray[start + size / 2]? = some points[start + size / 2] := by
          rw [List.getElem?_toArray, List.getElem?_eq_getElem hmiddle]
        simp only [hget, Option.any_some, beq_iff_eq]
        split
        · -- The entry in the middle is after the point, so the point is in the first half.
          rename_i hafter
          refine ih _ (by omega) start hstart ?_ (by omega)
          by_contra hlate
          rcases Nat.lt_or_eq_of_le (show start + size / 2 ≤ index by omega) with hbefore | heq
          · have hcompare := Point.compare_eq_lt_iff.mpr (hlt _ _ hmiddle hlength hbefore)
            simp [hcompare] at hafter
          · simp [heq] at hafter
        · rename_i hafter
          refine ih _ (by omega) _ ?_ (by omega) (by omega)
          by_contra hearly
          have hcompare := Point.compare_eq_lt_iff.mpr
            (hlt _ _ hlength hmiddle (show index < start + size / 2 by omega))
          exact hafter (Std.OrientedCmp.gt_of_lt hcompare)

/-- In results that are in order, the entry of a point is found if there is one. -/
theorem find?_eq_some_iff {results : Results} (hordered : results.Ordered) {point : Point}
    {entry : ResolvedPoint} :
    results.find? point = some entry ↔ entry ∈ results.points ∧ entry.point = point := by
  rw [find?, Option.filter_eq_some_iff]
  simp only [decide_eq_true_eq]
  constructor
  · rintro ⟨hfound, hpoint⟩
    rw [List.getElem?_toArray] at hfound
    exact ⟨List.mem_of_getElem? hfound, hpoint⟩
  · rintro ⟨hmem, rfl⟩
    obtain ⟨index, hentry⟩ := List.mem_iff_getElem?.mp hmem
    obtain ⟨hindex, _⟩ := List.getElem?_eq_some_iff.mp hentry
    refine ⟨?_, rfl⟩
    rw [narrow_eq hordered hentry 0 _ (Nat.zero_le index) (by simpa using hindex) (by simp),
      List.getElem?_toArray]
    exact hentry

end Results

/-! ## The operands of a method -/

/-- The points of the operands of a statement, which stands at the given point, that are resolved:
the class of a reflective call, and its member if it names one. -/
def Statement.operands (site : Point) : Statement → List Point
  | .reflect _ _ none => [site.operand Point.classSlot]
  | .reflect _ _ (some _) => [site.operand Point.classSlot, site.operand Point.memberSlot]
  | _ => []

namespace Outline

/-- Tracking an operand adds its point. -/
theorem mem_track_operand_tracked (outline : Outline) (site : Point) (slot name : String)
    {point : Point} :
    point ∈ (outline.trackOperand site slot name).tracked ↔
      point = site.operand slot ∨ point ∈ outline.tracked := by
  rw [trackOperand, Std.ExtTreeMap.mem_insert, read_tracked, Std.compare_eq_iff_eq, eq_comm]

/-- A statement adds the points of its operands. -/
theorem mem_step_tracked (outline : Outline) (site : Point) (statement : Statement)
    {point : Point} :
    point ∈ (outline.step site statement).tracked ↔
      point ∈ statement.operands site ∨ point ∈ outline.tracked := by
  cases statement with
  | invoke callee dest args => cases dest <;> simp [step, Statement.operands]
  | reflect kind cls member =>
      cases member with
      | none => simp [step, Statement.operands, mem_track_operand_tracked]
      | some member =>
          simp only [step, Statement.operands, mem_track_operand_tracked, List.mem_cons,
            List.not_mem_nil, or_false]
          tauto
  | const | assign | concat | append | phi | param | unknown | storeField | loadField =>
      simp [step, store, Statement.operands]

/-- The statements of a method add the points of their operands. -/
theorem mem_steps_tracked (outline : Outline) (method : String) (index : Nat)
    (body : List Statement) {point : Point} :
    point ∈ (outline.steps method index body).tracked ↔
      (∃ (later : Nat) (statement : Statement), body[later]? = some statement ∧
        point ∈ statement.operands { method, statement := index + later }) ∨
      point ∈ outline.tracked := by
  induction body generalizing outline index with
  | nil => simp [steps]
  | cons statement rest ih =>
      rw [steps, ih, mem_step_tracked, ← or_assoc]
      refine or_congr_left ?_
      constructor
      · rintro (⟨later, other, hother, hpoint⟩ | hpoint)
        · exact ⟨later + 1, other, hother, by rwa [Nat.add_right_comm, Nat.add_assoc] at hpoint⟩
        · exact ⟨0, statement, rfl, hpoint⟩
      · rintro ⟨later, other, hother, hpoint⟩
        cases later with
        | zero =>
            cases hother
            exact .inr hpoint
        | succ later =>
            exact .inl ⟨later, other, hother, by rwa [Nat.add_right_comm, Nat.add_assoc]⟩

end Outline

/-- A point is an operand of a reflective call in the body of a method that one of the names
finds. -/
def Program.HasOperand (program : Program) (names : List String) (point : Point) : Prop :=
  ∃ name ∈ names, ∃ method, program.method? name = some method ∧
    ∃ (index : Nat) (statement : Statement), method.body[index]? = some statement ∧
      point ∈ statement.operands { method := name, statement := index }

/-- The points that a method tracks are the operands of its statements. -/
theorem Method.mem_outline_tracked {method : Method} {point : Point} :
    point ∈ method.outline.tracked ↔
      ∃ (index : Nat) (statement : Statement), method.body[index]? = some statement ∧
        point ∈ statement.operands { method := method.name, statement := index } := by
  rw [outline, Outline.mem_steps_tracked]
  simp

/-- After methods were collected, the tracked points are those of the methods. -/
theorem Collected.mem_tracked {methods : List Method} {labels : List (Label Method)}
    {context : Context} (hcollected : Collected methods labels context) {point : Point} :
    point ∈ context.tracked ↔ ∃ method ∈ methods, point ∈ method.outline.tracked := by
  simp only [Std.ExtTreeMap.mem_iff_isSome_getElem?, Option.isSome_iff_exists]
  constructor
  · rintro ⟨box, hbox⟩
    obtain ⟨method, hmethod, index, hindex, _⟩ := hcollected.tracked hbox
    exact ⟨method, hmethod, index, hindex⟩
  · rintro ⟨method, hmethod, index, hindex⟩
    obtain ⟨box, hbox, _⟩ := hcollected.tracks hmethod hindex
    exact ⟨box, hbox⟩

/-! ## The points of a report -/

/-- Resolving keeps the tracked points and their order. -/
theorem Context.points_eq_keys {context : Context} {settings : ResolverSettings} {iteration : Nat}
    {results : Results} (hresolve : context.resolveTracked settings iteration = .ok results) :
    results.points.map (·.point) = context.tracked.keys := by
  obtain ⟨_, hentries⟩ := resolved_at_of_resolve_tracked hresolve
  have hpoints : List.Forall₂ (· = ·) (results.points.map (·.point))
      (context.tracked.toList.map Prod.fst) := by
    rw [List.forall₂_map_left_iff, List.forall₂_map_right_iff]
    exact (hentries.imp fun _ _ hentry => hentry.1).flip
  rw [List.forall₂_eq_eq_eq] at hpoints
  rw [hpoints, Std.ExtTreeMap.map_fst_toList_eq_keys]

/-- Resolved points are in order. -/
theorem Context.ordered_of_resolve_tracked {context : Context} {settings : ResolverSettings}
    {iteration : Nat} {results : Results}
    (hresolve : context.resolveTracked settings iteration = .ok results) : results.Ordered := by
  have hkeys : (results.points.map (·.point)).Pairwise fun a b => compare a b = .lt := by
    rw [points_eq_keys hresolve]
    exact Std.ExtTreeMap.ordered_keys
  rw [List.pairwise_map] at hkeys
  exact hkeys.imp fun hlt => Point.compare_eq_lt_iff.mp hlt

/-- What the last iteration of an analysis has resolved are the operands of the methods that it
could reach. -/
theorem LastIteration.mem_points {analyzer : Analyzer} {engine : Engine} {program : Program}
    {report : Report} {before after : Knowledge} {fixed : Bool}
    (hlast : LastIteration analyzer engine program report before after fixed) {point : Point} :
    (∃ entry ∈ report.points, entry.point = point) ↔
      program.HasOperand (analyzer.reachableIn engine program report.lastIteration) point := by
  obtain ⟨labels, hcollected⟩ := hlast.iterates.exists_collected
  have hkeys : (∃ entry ∈ report.points, entry.point = point) ↔ point ∈ after.context.tracked := by
    rw [← Std.ExtTreeMap.mem_keys, ← Context.points_eq_keys hlast.iterates.resolved, List.mem_map]
    rfl
  rw [hkeys, hcollected.mem_tracked, hlast.reachable]
  constructor
  · rintro ⟨method, hmethod, hpoint⟩
    obtain ⟨hname, hfind⟩ := Program.mem_reachable_methods.mp hmethod
    exact ⟨method.name, hname, method, hfind, Method.mem_outline_tracked.mp hpoint⟩
  · rintro ⟨name, hname, method, hfind, hpoint⟩
    obtain rfl := Program.name_of_method? hfind
    exact ⟨method, Program.mem_reachable_methods.mpr ⟨hname, hfind⟩,
      Method.mem_outline_tracked.mpr hpoint⟩

/-- A report has the operands of the reflective calls that the last iteration could reach: each of
them once, in order, and no other point. Looking up a point gives its entry. -/
structure Report.TracksOperands (analyzer : Analyzer) (engine : Engine) (program : Program)
    (report : Report) : Prop where
  ordered : report.points.Pairwise fun earlier later => earlier.point.Before later.point
  exact : ∀ point, (∃ entry ∈ report.points, entry.point = point) ↔
    program.HasOperand (analyzer.reachableIn engine program report.lastIteration) point
  found : ∀ entry ∈ report.points, report.results.find? entry.point = some entry
  missed : ∀ point,
    ¬ program.HasOperand (analyzer.reachableIn engine program report.lastIteration) point →
    report.results.find? point = none

/-- Every report is about the operands of the reflective calls that its last iteration could
reach. -/
theorem report_tracks_operands (analyzer : Analyzer) (engine : Engine) (clock : Nat → Id Nat)
    (program : Program) (report : Report)
    (hreport : (analyzer.analyze engine clock program).1.report = .ok report) :
    report.TracksOperands analyzer engine program := by
  obtain ⟨before, after, fixed, hlast⟩ := Analyzer.exists_last_iteration hreport
  have hordered : report.results.Ordered :=
    Context.ordered_of_resolve_tracked hlast.iterates.resolved
  refine ⟨hordered, fun point => hlast.mem_points, ?_, ?_⟩
  · intro entry hentry
    exact (Results.find?_eq_some_iff hordered).mpr ⟨hentry, rfl⟩
  · intro point hnone
    rw [Option.eq_none_iff_forall_ne_some]
    intro entry hfound
    exact hnone (hlast.mem_points.mp ⟨entry, (Results.find?_eq_some_iff hordered).mp hfound⟩)

/-- A program with two methods of one name, of which the first one counts, and with a method that
nothing reaches. -/
def operandProgram : Program where
  entryPoints := ["Main.run"]
  methods := [
    { name := "Main.run"
      body := [.const "c" "Plugin", .const "n" "load", .reflect .methodCall "c" (some "n"),
        .reflect .classCall "c" none] },
    { name := "Plugin.load", params := ["x"], body := [.reflect .fieldCall "x" (some "x")] },
    { name := "Plugin.load", body := [.unknown "y", .reflect .classCall "y" none] },
    { name := "Main.unused", params := ["z"], body := [.reflect .classNewInstance "z" none] }]

/-- An analyzer that may run as many iterations as the program can need. -/
def operandAnalyzer : Analyzer where
  settings := { analysis := { maxIterations := 21 } }

/-- The report about the program tracks the operands of the methods that count and are reached. -/
theorem report_tracks_operands_shadowed :
    ∃ report,
      (operandAnalyzer.analyze .unlimited (fun _ => (0 : Id Nat)) operandProgram).1.report =
        .ok report ∧
      report.TracksOperands operandAnalyzer .unlimited operandProgram := by
  obtain ⟨report, hreport, _⟩ :=
    exists_converged operandAnalyzer .unlimited (fun _ => (0 : Id Nat)) operandProgram rfl rfl
      (by decide) (operandAnalyzer.not_refuses_unlimited operandProgram)
  exact ⟨report, hreport, report_tracks_operands operandAnalyzer _ _ operandProgram report hreport⟩

end StringReach
