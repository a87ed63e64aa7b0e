import StringReach.Analysis.Collect
import StringReach.Program.CallGraph
import StringReach.Reflection.Descriptor
import StringReach.Reflection.Pattern

/-!
# Discovering call edges

The strings at a reflective call select methods of the program. Each selected method gives a call
edge, and the edges found so far decide which methods the next iteration collects.
-/

namespace StringReach

/-- The patterns of the strings at a point, each in its plain spelling, without those that say
nothing. Every string has to be one that can be read as a pattern. -/
def Results.patternsAt (results : Results) (engine : Engine) (point : Point)
    (plain : String → String) : Except Error (List Pattern) := do
  let patterns ← (results.stringsAt point).mapM fun text => Pattern.compile engine (plain text)
  pure (patterns.filter (!·.isUnconstrained))

/-- Whether a reflective call may reach a method, by the patterns for its class and its member. -/
def ReflectionKind.selects (kind : ReflectionKind) (classes members : List Pattern)
    (method : Method) : Bool :=
  classes.any (·.accepts method.className) &&
    match kind with
    | .classNewInstance => method.simpleName = Method.constructorName
    | .constructorCall => method.simpleName = Method.constructorName
    | .classCall => method.simpleName = Method.classLoadName
    | .fieldCall => method.simpleName = Method.classLoadName
    | .methodCall => members.any (·.accepts method.simpleName)

/-- The methods that a reflective call may reach. -/
def Program.targetsOf (program : Program) (engine : Engine) (results : Results) (site : Point)
    (kind : ReflectionKind) : Except Error (List Method) := do
  let classes ← results.patternsAt engine (site.operand Point.classSlot) Spelling.plainClass
  let members ← results.patternsAt engine (site.operand Point.memberSlot) Spelling.plainName
  pure (program.methods.filter fun method => kind.selects classes members method)

/-- The call edges that the strings at a reflective call give. -/
def Program.edgesFrom (program : Program) (engine : Engine) (results : Results) (site : Point)
    (kind : ReflectionKind) : Except Error (List CallEdge) := do
  let targets ← program.targetsOf engine results site kind
  pure (targets.map fun target =>
    { caller := site.method, callee := target.name, origin := .reflective site })

/-- The call edges that the strings at the reflective calls of a context give. -/
def Program.reflectiveEdges (program : Program) (engine : Engine) (context : Context)
    (results : Results) : Except Error (List CallEdge) := do
  let edges ← context.sites.toList.mapM fun (site, kind) =>
    program.edgesFrom engine results site kind
  pure edges.flatten

/-- The methods to collect, given the edges found so far. -/
def Program.reachableMethods (program : Program) (discovered : Std.ExtTreeSet CallEdge) :
    List Method :=
  (CallGraph.ofProgram program discovered.toList).reachable.filterMap program.method?

end StringReach
