import StringReach.Program.Point
import StringReach.Reflection.Kind
import StringReach.Term.Fields
import Std.Data.ExtTreeMap

/-!
# The context of an analysis

The facts that collecting a program gathers: the boxes, the fields, the operands to resolve and the
reflective calls.
-/

namespace StringReach

/-- The facts gathered so far. -/
structure Context where
  arena : Arena := .empty
  fields : Fields := .empty
  /-- The box of each tracked point. -/
  tracked : Std.ExtTreeMap Point Handle := ∅
  /-- The kind of each reflective call. -/
  sites : Std.ExtTreeMap Point ReflectionKind := ∅

namespace Context

/-- The context without facts. -/
def empty : Context := {}

/-- Put a term into a new box. -/
def alloc (context : Context) (term : Term) : Handle × Context :=
  let (box, arena) := context.arena.alloc term
  (box, { context with arena })

/-- Track a point. -/
def track (context : Context) (point : Point) (box : Handle) : Context :=
  { context with tracked := context.tracked.insert point box }

/-- Record a reflective call. -/
def addSite (context : Context) (site : Point) (kind : ReflectionKind) : Context :=
  { context with sites := context.sites.insert site kind }

end Context

end StringReach
