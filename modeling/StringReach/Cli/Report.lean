import StringReach.Analysis.Analyzer
import StringReach.Text.Quoted

/-!
# Reports as text

A report says how the analysis ended, then lists the points, the reflective calls and the call edges
found through them. The report on a failure lists its causes, the outermost first.
-/

namespace StringReach

/-- The word for how a run ended. -/
def Convergence.title : Convergence → String
  | converged => "Converged"
  | iterationCapReached => "IterationCapReached"
  | timedOut => "TimedOut"

/-- The line for a resolved point. -/
def ResolvedPoint.line (entry : ResolvedPoint) : String :=
  let solution := entry.resolution.solution
  let strings := String.intercalate ", " (solution.strings.toList.map Text.quoted)
  "  " ++ entry.point.text ++ "  \x7b" ++ strings ++ "\x7d  warnings=" ++
    solution.counter.toNat.repr ++ if entry.resolution.recursive then " recursive" else ""

/-- The line for a target. -/
def Target.line (target : Target) : String :=
  "    cls=" ++ target.cls.getD "-" ++ " name=" ++ target.name.getD "-"

/-- The lines for a reflective call and its targets. -/
def Descriptor.lines (descriptor : Descriptor) : List String :=
  ("  " ++ descriptor.site.text ++ " [" ++ descriptor.kind.name ++ "]") ::
    descriptor.targets.toList.map Target.line

/-- The line for a call edge. -/
def CallEdge.line (edge : CallEdge) : String :=
  "  " ++ edge.caller ++ " -> " ++ edge.callee

/-- A part of a report, with a blank line and a title before it. -/
def Report.part (title : String) (lines : List String) : List String :=
  "" :: title :: lines

/-- A part of a report that is left out when it has no lines. -/
def Report.optionalPart (title : String) (lines : List String) : List String :=
  if lines.isEmpty then [] else part title lines

/-- A report as text. -/
def Report.text (report : Report) : String :=
  let first := report.convergence.title ++ " after " ++ report.iterations.repr ++
    " iteration(s), " ++ (UInt64.ofNat report.warnings).toNat.repr ++ " warning(s)"
  let lines := first ::
    part "Points:" (report.points.map ResolvedPoint.line) ++
    optionalPart "Reflective sites:" (report.descriptors.flatMap Descriptor.lines) ++
    optionalPart "Discovered edges:" (report.discoveredEdges.map CallEdge.line)
  String.intercalate "\n" lines ++ "\n"

/-- What is said of a failure, with its causes. -/
structure Failure where
  message : String
  causes : List String
deriving DecidableEq, Repr

namespace Failure

/-- The failure of an error by itself. -/
def ofError (error : Error) : Failure :=
  { message := error.message, causes := error.causes }

/-- The failure of something that was being done, because of an error. -/
def during (activity : String) (error : Error) : Failure :=
  { message := activity, causes := error.message :: error.causes }

/-- A cause after its mark, with its further lines as far in as the first. -/
def indented (mark cause : String) : String :=
  let margin := String.ofList (mark.toList.map fun _ => ' ')
  mark ++ String.intercalate ("\n" ++ margin) (cause.splitOn "\n")

/-- The causes, which are numbered if there are several. -/
def causeLines (causes : List String) : List String :=
  match causes with
  | [cause] => [indented "    " cause]
  | causes => causes.zipIdx.map fun (cause, n) => indented ("    " ++ n.repr ++ ": ") cause

/-- A failure as text. -/
def text (failure : Failure) : String :=
  let causes := if failure.causes.isEmpty then []
    else ["", "Caused by:"] ++ causeLines failure.causes
  String.intercalate "\n" (("Error: " ++ failure.message) :: causes) ++ "\n"

end Failure

end StringReach
