import StringReach.Analysis.Analyzer

/-!
# Results without their warnings

A warning is counted and never looked at. The strings at a point, and hence the targets of a
reflective call and the edges to them, are the same when the warnings are left out of the results,
so the report of a run without its warnings is the report of the run without its warnings
(`Outcome.report_without_warnings`).
-/

namespace StringReach

/-- A resolution without its warnings. -/
def Resolution.withoutWarnings (resolution : Resolution) : Resolution :=
  { resolution with solution := { resolution.solution with warnings := 0 } }

/-- The resolution of a point without its warnings. -/
def ResolvedPoint.withoutWarnings (entry : ResolvedPoint) : ResolvedPoint :=
  { entry with resolution := entry.resolution.withoutWarnings }

/-- A descriptor without its warnings. -/
def Descriptor.withoutWarnings (descriptor : Descriptor) : Descriptor :=
  { descriptor with warnings := 0 }

/-- Results without their warnings. -/
def Results.withoutWarnings (results : Results) : Results :=
  { results with points := results.points.map (·.withoutWarnings) }

/-- An outcome without the warnings of its results. -/
def Outcome.withoutWarnings (outcome : Outcome) : Outcome :=
  { outcome with results := outcome.results.withoutWarnings }

/-- A report without any warnings: those of its points, those of its descriptors and their sum. -/
def Report.withoutWarnings (report : Report) : Report :=
  { report with
    points := report.points.map (·.withoutWarnings)
    warnings := 0
    descriptors := report.descriptors.map (·.withoutWarnings) }

namespace Results

/-- Narrowing a window reads the points of the entries only. -/
theorem narrow_without_warnings (entries : Array ResolvedPoint) (point : Point) (start size : Nat) :
    narrow (entries.map (·.withoutWarnings)) point start size =
      narrow entries point start size := by
  fun_induction narrow entries point start size with
  | case1 start size hsmall => rw [narrow, if_pos hsmall]
  | case2 start size hlarge middle isAfter ih =>
      rw [narrow, if_neg hlarge]
      simp only [Array.getElem?_map, Option.any_map]
      exact ih

/-- The entry of a point is found without the warnings too. -/
theorem find?_without_warnings (results : Results) (point : Point) :
    results.withoutWarnings.find? point = (results.find? point).map (·.withoutWarnings) := by
  simp only [find?, withoutWarnings, ← List.map_toArray, Array.size_map, narrow_without_warnings,
    Array.getElem?_map]
  rw [Option.filter_map]
  rfl

/-- The strings at a point do not depend on the warnings. -/
@[simp] theorem strings_at_without_warnings (results : Results) (point : Point) :
    results.withoutWarnings.stringsAt point = results.stringsAt point := by
  rw [stringsAt, stringsAt, find?_without_warnings]
  cases results.find? point with
  | none => rfl
  | some entry => rfl

/-- No warnings are left. -/
theorem total_warnings_without_warnings (results : Results) :
    results.withoutWarnings.totalWarnings = 0 := by
  show ((results.points.map (·.withoutWarnings)).map (·.warnings)).sum = 0
  rw [List.sum_eq_zero_iff_forall_eq_nat, List.map_map]
  simp [ResolvedPoint.warnings, ResolvedPoint.withoutWarnings, Resolution.withoutWarnings]

end Results

/-- The edges that strings give do not depend on the warnings. -/
theorem Program.reflective_edges_without_warnings (program : Program) (engine : Engine)
    (context : Context) (results : Results) :
    program.reflectiveEdges engine context results.withoutWarnings =
      program.reflectiveEdges engine context results := by
  simp only [reflectiveEdges, edgesFrom, targetsOf, Results.patternsAt,
    Results.strings_at_without_warnings]

namespace Descriptor

/-- The targets of a site do not depend on the warnings. -/
theorem targets_at_without_warnings (results : Results) (site : Point) (kind : ReflectionKind) :
    targetsAt results.withoutWarnings site kind = targetsAt results site kind := by
  simp only [targetsAt, memberChoices, Results.strings_at_without_warnings]

/-- No warnings are left at the operands of a site. -/
theorem warnings_at_without_warnings (results : Results) (site : Point) :
    warningsAt results.withoutWarnings site = 0 := by
  show (([Point.classSlot, Point.memberSlot].filterMap fun slot =>
    (results.withoutWarnings.find? (site.operand slot)).map (·.warnings)).sum) = 0
  rw [List.sum_eq_zero_iff_forall_eq_nat]
  intro count hcount
  obtain ⟨slot, _, hfound⟩ := List.mem_filterMap.mp hcount
  rw [Results.find?_without_warnings, Option.map_map] at hfound
  obtain ⟨entry, _, rfl⟩ := Option.map_eq_some_iff.mp hfound
  rfl

/-- Without the warnings a site has its descriptor without the warnings. -/
theorem of_site?_without_warnings (results : Results) (site : Point) (kind : ReflectionKind) :
    ofSite? results.withoutWarnings site kind =
      (ofSite? results site kind).map (·.withoutWarnings) := by
  rw [ofSite?, ofSite?, targets_at_without_warnings, warnings_at_without_warnings]
  split <;> rfl

/-- Without the warnings the sites have their descriptors without the warnings. -/
theorem of_sites_without_warnings (sites : Std.ExtTreeMap Point ReflectionKind)
    (results : Results) :
    ofSites sites results.withoutWarnings = (ofSites sites results).map (·.withoutWarnings) := by
  simp only [ofSites, of_site?_without_warnings, List.map_filterMap]

end Descriptor

/-- The report of a run without its warnings is the report of the run without its warnings. -/
theorem Outcome.report_without_warnings (outcome : Outcome) (knowledge : Knowledge) :
    (outcome.report knowledge).withoutWarnings = outcome.withoutWarnings.report knowledge := by
  simp only [report, withoutWarnings, Report.withoutWarnings,
    Results.total_warnings_without_warnings, Descriptor.of_sites_without_warnings]
  rfl

end StringReach
