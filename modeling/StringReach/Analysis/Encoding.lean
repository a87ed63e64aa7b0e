import StringReach.Analysis.Analyzer
import StringReach.Program.Encoding

/-!
# Results and settings as data

Results, reports and settings are written as records of all of their fields. Settings may be read
from a record that has only some of them.
-/

namespace StringReach

/-- A set of texts as data, in order. -/
def Data.textSet (items : Std.ExtTreeSet String) : Data :=
  .texts items.toList

/-- Read a set of texts, given in any order and with repetitions. -/
def Data.textSet? (data : Data) : Option (Std.ExtTreeSet String) := do
  let items ← data.listOf? Data.text?
  pure (.ofList items)

namespace Solution

/-- A solution as data. -/
def toData (solution : Solution) : Data :=
  .named [("strings", .textSet solution.strings), ("warnings", .nat solution.warnings)]

/-- Read a solution. -/
def ofData? (data : Data) : Option Solution := do
  let fields ← data.fields? ["strings", "warnings"]
  let strings ← fields.required "strings" Data.textSet?
  let warnings ← fields.required "warnings" Data.nat?
  pure { strings, warnings }

end Solution

namespace Strategy

/-- The strategy of a name. -/
def ofName? (name : String) : Option Strategy :=
  [acyclic, bounded].find? (·.name = name)

/-- Read a strategy. -/
def ofData? (data : Data) : Option Strategy := do
  let name ← data.choice?
  ofName? name

end Strategy

/-- A resolution as data. -/
def Resolution.toData (resolution : Resolution) : Data :=
  .named [("solution", resolution.solution.toData), ("recursive", .bool resolution.recursive),
    ("strategy", .text resolution.strategy.name)]

namespace ResolvedPoint

/-- A resolved point as data. -/
def toData (entry : ResolvedPoint) : Data :=
  .named [("point", entry.point.toData),
    ("strings", .textSet entry.resolution.solution.strings),
    ("warnings", .nat entry.resolution.solution.warnings),
    ("recursive", .bool entry.resolution.recursive),
    ("strategy", .text entry.resolution.strategy.name)]

/-- Read a resolved point. -/
def ofData? (data : Data) : Option ResolvedPoint := do
  let fields ← data.fields? ["point", "strings", "warnings", "recursive", "strategy"]
  let point ← fields.required "point" Point.ofData?
  let strings ← fields.required "strings" Data.textSet?
  let warnings ← fields.required "warnings" Data.nat?
  let recursive ← fields.required "recursive" Data.bool?
  let strategy ← fields.required "strategy" Strategy.ofData?
  pure { point, resolution := { solution := { strings, warnings }, recursive, strategy } }

end ResolvedPoint

/-- Results as data. -/
def Results.toData (results : Results) : Data :=
  .named [("iteration", .nat results.iteration),
    ("points", .list (results.points.map ResolvedPoint.toData))]

namespace Target

/-- A target as data. -/
def toData (target : Target) : Data :=
  .named [("cls", .ofOption .text target.cls), ("name", .ofOption .text target.name)]

/-- Read a target. -/
def ofData? (data : Data) : Option Target := do
  let fields ← data.fields? ["cls", "name"]
  let cls ← fields.optional "cls" Data.text?
  let name ← fields.optional "name" Data.text?
  pure { cls, name }

end Target

namespace Descriptor

/-- A descriptor as data. -/
def toData (descriptor : Descriptor) : Data :=
  .named [("site", descriptor.site.toData), ("kind", descriptor.kind.toData),
    ("targets", .list (descriptor.targets.toList.map Target.toData)),
    ("warnings", .nat descriptor.warnings)]

/-- Read a descriptor. -/
def ofData? (data : Data) : Option Descriptor := do
  let fields ← data.fields? ["site", "kind", "targets", "warnings"]
  let site ← fields.required "site" Point.ofData?
  let kind ← fields.required "kind" ReflectionKind.ofData?
  let targets ← fields.required "targets" (Data.listOf? Target.ofData?)
  let warnings ← fields.required "warnings" Data.nat?
  pure { site, kind, targets := .ofList targets, warnings }

end Descriptor

namespace Convergence

/-- The name of the way a run ended, in data. -/
def name : Convergence → String
  | converged => "converged"
  | iterationCapReached => "iteration_cap_reached"
  | timedOut => "timed_out"

/-- The way of ending of a name. -/
def ofName? (name : String) : Option Convergence :=
  [converged, iterationCapReached, timedOut].find? (·.name = name)

/-- Read the way a run ended. -/
def ofData? (data : Data) : Option Convergence := do
  let name ← data.choice?
  ofName? name

end Convergence

namespace Report

/-- A report as data. -/
def toData (report : Report) : Data :=
  .named [("convergence", .text report.convergence.name), ("iterations", .nat report.iterations),
    ("points", .list (report.points.map ResolvedPoint.toData)),
    ("warnings", .nat report.warnings),
    ("descriptors", .list (report.descriptors.map Descriptor.toData)),
    ("discovered_edges", .list (report.discoveredEdges.map CallEdge.toData))]

/-- Read a report. -/
def ofData? (data : Data) : Option Report := do
  let fields ← data.fields?
    ["convergence", "iterations", "points", "warnings", "descriptors", "discovered_edges"]
  let convergence ← fields.required "convergence" Convergence.ofData?
  let iterations ← fields.required "iterations" Data.nat?
  let points ← fields.required "points" (Data.listOf? ResolvedPoint.ofData?)
  let warnings ← fields.required "warnings" Data.nat?
  let descriptors ← fields.required "descriptors" (Data.listOf? Descriptor.ofData?)
  let discoveredEdges ← fields.required "discovered_edges" (Data.listOf? CallEdge.ofData?)
  pure { convergence, iterations, points, warnings, descriptors, discoveredEdges }

end Report

namespace AnalysisSettings

/-- Analysis settings as data. -/
def toData (settings : AnalysisSettings) : Data :=
  .named [("iterative", .bool settings.iterative), ("max_iterations", .nat settings.maxIterations),
    ("recursion_depth", .nat settings.recursionDepth), ("inline_depth", .nat settings.inlineDepth),
    ("follow_calls", .bool settings.followCalls),
    ("dag_fast_path", .bool settings.acyclicFastPath),
    ("iteration_timeout_secs", .ofOption .nat settings.timeoutSeconds)]

/-- Read analysis settings. -/
def ofData? (data : Data) : Option AnalysisSettings := do
  let standard : AnalysisSettings := {}
  let fields ← data.fields? ["iterative", "max_iterations", "recursion_depth", "inline_depth",
    "follow_calls", "dag_fast_path", "iteration_timeout_secs"]
  let iterative ← fields.defaulted "iterative" Data.bool? standard.iterative
  let maxIterations ← fields.defaulted "max_iterations" Data.nat? standard.maxIterations
  let recursionDepth ← fields.defaulted "recursion_depth" Data.nat? standard.recursionDepth
  let inlineDepth ← fields.defaulted "inline_depth" Data.nat? standard.inlineDepth
  let followCalls ← fields.defaulted "follow_calls" Data.bool? standard.followCalls
  let acyclicFastPath ← fields.defaulted "dag_fast_path" Data.bool? standard.acyclicFastPath
  let timeoutSeconds ← fields.defaulted "iteration_timeout_secs" (Data.nullable? Data.nat?)
    standard.timeoutSeconds
  pure { iterative, maxIterations, recursionDepth, inlineDepth, followCalls, acyclicFastPath,
         timeoutSeconds }

/-- The shape of analysis settings. -/
def shape : Shape :=
  .fields [("iterative", .bool), ("max_iterations", .nat), ("recursion_depth", .nat),
    ("inline_depth", .nat), ("follow_calls", .bool), ("dag_fast_path", .bool),
    ("iteration_timeout_secs", .nullableNat)]

end AnalysisSettings

namespace OutputSettings

/-- Output settings as data. -/
def toData (settings : OutputSettings) : Data :=
  .named [("show_terms", .bool settings.showTerms), ("show_box_ids", .bool settings.showHandles)]

/-- Read output settings. -/
def ofData? (data : Data) : Option OutputSettings := do
  let standard : OutputSettings := {}
  let fields ← data.fields? ["show_terms", "show_box_ids"]
  let showTerms ← fields.defaulted "show_terms" Data.bool? standard.showTerms
  let showHandles ← fields.defaulted "show_box_ids" Data.bool? standard.showHandles
  pure { showTerms, showHandles }

/-- The shape of output settings. -/
def shape : Shape :=
  .fields [("show_terms", .bool), ("show_box_ids", .bool)]

end OutputSettings

namespace Settings

/-- Settings as data. -/
def toData (settings : Settings) : Data :=
  .named [("analysis", settings.analysis.toData), ("output", settings.output.toData)]

/-- Read settings. -/
def ofData? (data : Data) : Option Settings := do
  let fields ← data.fields? ["analysis", "output"]
  let analysis ← fields.defaulted "analysis" AnalysisSettings.ofData? {}
  let output ← fields.defaulted "output" OutputSettings.ofData? {}
  pure { analysis, output }

/-- The shape of settings. -/
def shape : Shape :=
  .fields [("analysis", AnalysisSettings.shape), ("output", OutputSettings.shape)]

end Settings

/-- Resolver settings as data. -/
def ResolverSettings.toData (settings : ResolverSettings) : Data :=
  .named [("recursion_depth", .nat settings.recursionDepth),
    ("inline_depth", .nat settings.inlineDepth), ("follow_calls", .bool settings.followCalls),
    ("dag_fast_path", .bool settings.acyclicFastPath)]

/-- Dump settings as data. -/
def DumpSettings.toData (settings : DumpSettings) : Data :=
  .named [("depth", .nat settings.depth), ("show_ids", .bool settings.showHandles)]

end StringReach
