import StringReach.Cli.Arguments
import StringReach.Cli.Report
import StringReach.Data.Json.Writer
import StringReach.Files.Load

/-!
# Running a command line

A command line is run against the files around it, an engine for patterns and a clock, and answered
by an exit code, a text for the standard output and a report if it failed: 0 when all went well, 1
for a failure, 2 for arguments that cannot be read.
-/

namespace StringReach.Cli

/-- The answer to a command line. -/
structure Response where
  exitCode : Nat := 0
  output : String := ""
  failure : Option Failure := none
deriving DecidableEq, Repr

/-- The name and version of the program. -/
def versionText : String := "stringflow 0.1.0\n"

/-- How the program is used. -/
def usage : String :=
  "String constraint resolution for reflective call sites

Usage: stringflow [OPTIONS] <COMMAND>

Commands:
  solve  Resolve every tracked program point
  check  Report which tracked points have recursive constraints
  dump   Print RESULT-lcb / RESULT-set lines for fields and tracked points
  help   Print this message

Options:
  -c, --config <FILE>      Configuration file (YAML or JSON)
  -v, --verbose            Debug logging
  -h, --help               Print help
  -V, --version            Print version

Options of solve and dump:
  -o, --output <FILE>      Output file (default: stdout)

Options of solve:
  -f, --format <FORMAT>    Output format: text or json
      --depth <DEPTH>      Override the unfolding bound of the recursive solver
      --no-iterate         Run a single iteration
"

variable {m : Type → Type} [Monad m]

/-- The answer when a text is printed or something failed. -/
def Response.ofExcept : Except Failure String → Response
  | .ok output => { output }
  | .error failure => { exitCode := 1, failure := some failure }

/-- Do something that is named in the failure it may end in. -/
def doing {α : Type} (activity : String) (action : ExceptT Error m α) : ExceptT Failure m α :=
  ExceptT.adapt (Failure.during activity) action

/-- Load the settings of a command line. -/
def loadSettings (files : FileAccess m) : Option String → ExceptT Failure m Settings
  | none => pure {}
  | some path => doing ("loading configuration " ++ path) (Settings.load files path)

/-- Load a program and analyse it. -/
def analyze (files : FileAccess m) (engine : Engine) (clock : Nat → m Nat) (settings : Settings)
    (path : String) : ExceptT Failure m (Report × Analyzer) := do
  let program ← doing ("loading program " ++ path) (Program.load files path)
  let (analysis, analyzer) ← ExceptT.lift (Analyzer.analyze { settings } engine clock program)
  match analysis.report with
  | .ok report => pure (report, analyzer)
  | .error error => throw (.ofError error)

/-- Write a text to a file, or leave it for the standard output. -/
def deliver (files : FileAccess m) (output : Option String) (text : String) :
    ExceptT Failure m String :=
  match output with
  | none => pure text
  | some path => do
      match ← files.write path text with
      | .ok () => pure ""
      | .error fault => throw { message := "writing " ++ path, causes := [fault.message] }

/-- The dump of an analyzer. -/
def dumpText (analyzer : Analyzer) : Except Failure String :=
  analyzer.dump.mapError fun broken => .ofError (.violation broken)

/-- The text of a report, with a dump if the settings ask for one. -/
def reportText (format : ReportFormat) (report : Report) (analyzer : Analyzer) :
    Except Failure String :=
  match format with
  | .json => pure (Json.pretty "" report.toData ++ "\n")
  | .text =>
      if analyzer.settings.output.showTerms then do
        let dump ← dumpText analyzer
        pure (report.text ++ "\n" ++ dump)
      else pure report.text

/-- Say of each point whether its term is recursive, up to the first that cannot be checked. -/
def recursionLines (analyzer : Analyzer) : List (Point × Handle) → String × Option Violation
  | [] => ("", none)
  | (point, box) :: rest =>
      match analyzer.context.arena.isRecursive analyzer.settings.analysis.followCalls box with
      | .error broken => ("", some broken)
      | .ok recursive =>
          let (lines, broken) := recursionLines analyzer rest
          (point.text ++ "\t" ++ (if recursive then "recursive" else "acyclic") ++ "\n" ++ lines,
            broken)

/-- Run a command under settings. -/
def Command.run (files : FileAccess m) (engine : Engine) (clock : Nat → m Nat)
    (settings : Settings) : Command → m Response
  | solve program output format depth once => do
      let analysis := { settings.analysis with
        recursionDepth := depth.getD settings.analysis.recursionDepth
        iterative := settings.analysis.iterative && !once }
      let result ← ExceptT.run do
        let (report, analyzer) ← analyze files engine clock { settings with analysis } program
        let text ← liftExcept (reportText format report analyzer)
        deliver files output text
      pure (.ofExcept result)
  | check program => do
      match ← ExceptT.run (analyze files engine clock settings program) with
      | .error failure => pure (.ofExcept (.error failure))
      | .ok (_, analyzer) =>
          let (lines, broken) := recursionLines analyzer analyzer.context.tracked.toList
          match broken with
          | none => pure { output := lines }
          | some broken =>
              let failure := some (.ofError (.violation broken))
              pure { exitCode := 1, output := lines, failure }
  | dump program output => do
      let result ← ExceptT.run do
        let (_, analyzer) ← analyze files engine clock settings program
        let text ← liftExcept (dumpText analyzer)
        deliver files output text
      pure (.ofExcept result)

/-- Run a command line. -/
def run (files : FileAccess m) (engine : Engine) (clock : Nat → m Nat) (arguments : List String) :
    m Response :=
  match Invocation.ofArguments arguments with
  | .error .refused => pure { exitCode := 2 }
  | .error .help => pure { output := usage }
  | .error .version => pure { output := versionText }
  | .ok invocation => do
      match ← ExceptT.run (loadSettings files invocation.settings) with
      | .error failure => pure (.ofExcept (.error failure))
      | .ok settings => invocation.command.run files engine clock settings

end StringReach.Cli
