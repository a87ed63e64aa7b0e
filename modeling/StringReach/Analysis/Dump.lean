import StringReach.Analysis.Context
import StringReach.Solution.Bounded
import StringReach.Term.Render

/-!
# Dumps

A dump shows, for each field and then for each tracked point, the term and its bounded solution.
-/

namespace StringReach

/-- How a dump is made. -/
structure DumpSettings where
  depth : Nat := Arena.defaultDepth
  showHandles : Bool := false
deriving DecidableEq, Repr, Inhabited

namespace Context

/-- The entries of a dump: a key and a box for each field, then for each tracked point. -/
def dumpEntries (context : Context) : List (String × Handle) :=
  context.fields.toList.map (fun entry => ("field-" ++ entry.1, entry.2)) ++
    context.tracked.toList.map (fun entry => ("point-" ++ entry.1.text, entry.2))

/-- The two lines of an entry of a dump. -/
def dumpEntry (context : Context) (settings : DumpSettings) (key : String) (box : Handle) :
    Except Violation String := do
  let term ← context.arena.render settings.showHandles box
  let solution ← context.arena.solveBounded settings.depth box
  pure ("RESULT-lcb:[" ++ key ++ "]\t=======>\t" ++ term ++ "\n" ++
    "RESULT-set:[" ++ key ++ "]\t=======>\t" ++ solution.text ++ "\n")

/-- The dump of a context. -/
def dump (context : Context) (settings : DumpSettings) : Except Violation String := do
  let lines ← context.dumpEntries.mapM fun entry => context.dumpEntry settings entry.1 entry.2
  pure (String.join lines)

end Context

end StringReach
