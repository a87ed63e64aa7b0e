import StringReach.Analysis.Discovery
import StringReach.Analysis.Dump
import StringReach.Analysis.Iteration

/-!
# Analysing a program

An analyzer runs the iterations over a program and reports the strings at its reflective calls, the
targets they mean and the call edges they add. Its context stays behind for a dump.
-/

namespace StringReach

/-- What the analysis of a program knows: the edges found so far and the facts of the iteration. -/
structure Knowledge where
  discovered : Std.ExtTreeSet CallEdge := ∅
  context : Context := .empty

/-- The analysis of a program. Each iteration starts without facts and collects the methods that
can be reached by then. -/
def Program.driver (program : Program) (engine : Engine) : Driver Knowledge where
  Problem := List Method
  prepare := modify ({ · with context := .empty })
  build := do
    let knowledge ← get
    pure (program.reachableMethods knowledge.discovered)
  solve methods := do
    let knowledge ← get
    match knowledge.context.collectAll methods with
    | .ok context => set { knowledge with context }
    | .error broken => throw (.violation broken)
  isFixed results := do
    let knowledge ← get
    match program.reflectiveEdges engine knowledge.context results with
    | .error error => throw error
    | .ok found =>
        let discovered := knowledge.discovered.insertMany found
        set { knowledge with discovered }
        pure (discovered.size = knowledge.discovered.size)
  context := (·.context)

/-- One iteration of the analysis of a program: what it collected and what was known after it. -/
structure Round where
  methods : List Method
  results : Results
  fixed : Bool
  discovered : List CallEdge

/-- Run one iteration of the analysis of a program by hand. -/
def Program.round (program : Program) (engine : Engine) (settings : ResolverSettings)
    (iteration : Nat) : EStateM Error Knowledge Round := do
  let driver := program.driver engine
  driver.prepare
  let methods : List Method ← driver.build
  driver.solve methods
  let knowledge ← get
  match knowledge.context.resolveTracked settings iteration with
  | .error broken => throw (.violation broken)
  | .ok results =>
      let fixed ← driver.isFixed results
      let knowledge ← get
      pure { methods, results, fixed, discovered := knowledge.discovered.toList }

/-- Run several iterations by hand, past a fixed point too. -/
def Program.rounds (program : Program) (engine : Engine) (settings : ResolverSettings)
    (count : Nat) : EStateM Error Knowledge (List Round) :=
  (List.range count).mapM fun iteration => program.round engine settings iteration

/-- The result of an analysis. -/
structure Report where
  convergence : Convergence
  iterations : Nat
  /-- The resolved points of the last iteration. -/
  points : List ResolvedPoint
  /-- The warnings at all points together. -/
  warnings : Nat
  /-- The reflective calls with at least one target. -/
  descriptors : List Descriptor
  /-- The call edges found through reflection. -/
  discoveredEdges : List CallEdge
deriving DecidableEq

/-- The report of a run. -/
def Outcome.report (outcome : Outcome) (knowledge : Knowledge) : Report where
  convergence := outcome.convergence
  iterations := outcome.iterations
  points := outcome.results.points
  warnings := outcome.results.totalWarnings
  descriptors := Descriptor.ofSites knowledge.context.sites outcome.results
  discoveredEdges := knowledge.discovered.toList

/-- Settings, and the context that the last analysis left. -/
structure Analyzer where
  settings : Settings
  context : Context := .empty

/-- The answer to one request for an analysis: the report, and the results of each iteration. -/
structure Analysis where
  report : Except Error Report
  published : List Results

namespace Analyzer

/-- Analyse a program. Settings that cannot be used are refused before anything runs. -/
def analyze {m : Type → Type} [Monad m] (analyzer : Analyzer) (engine : Engine)
    (clock : Nat → m Nat) (program : Program) : m (Analysis × Analyzer) :=
  match analyzer.settings.validate with
  | .error error => pure ({ report := .error error, published := [] }, analyzer)
  | .ok () => do
      let (outcome, run) ←
        Run.start (program.driver engine) analyzer.settings.analysis clock
          { context := analyzer.context }
      let report := outcome.map (·.report run.knowledge)
      let analyzer := { analyzer with context := run.knowledge.context }
      pure ({ report, published := run.published }, analyzer)

/-- The settings of the dump of an analyzer. -/
def dumpSettings (analyzer : Analyzer) : DumpSettings where
  depth := analyzer.settings.analysis.recursionDepth
  showHandles := analyzer.settings.output.showHandles

/-- The dump of the context that the last analysis left. -/
def dump (analyzer : Analyzer) : Except Violation String :=
  analyzer.context.dump analyzer.dumpSettings

end Analyzer

end StringReach
