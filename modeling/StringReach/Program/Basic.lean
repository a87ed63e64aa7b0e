import StringReach.Reflection.Kind

/-!
# Programs

A program is a list of methods whose bodies hold the statements that matter to strings. Operands
name locals; constants enter by `const`.
-/

namespace StringReach

/-- One statement of a method. -/
inductive Statement where
  /-- `dest` becomes a constant. -/
  | const (dest value : String)
  /-- `dest` becomes a copy of `src`. -/
  | assign (dest src : String)
  /-- `dest` becomes `left` followed by `right`. -/
  | concat (dest left right : String)
  /-- `value` is appended to `target`; the result goes to `dest`, or back to `target`. -/
  | append (target value : String) (dest : Option String)
  /-- `dest` becomes one of the sources, by the way taken through the method. -/
  | phi (dest : String) (sources : List String)
  /-- `dest` comes from outside of the program. -/
  | param (dest : String)
  /-- `dest` comes from an operation that is not understood. -/
  | unknown (dest : String)
  /-- A field takes a value. -/
  | storeField (field value : String)
  /-- `dest` becomes the value of a field. -/
  | loadField (dest field : String)
  /-- A method is called, its result kept in `dest`. -/
  | invoke (callee : String) (dest : Option String) (args : List String)
  /-- A reflective call, whose class and member are strings. -/
  | reflect (kind : ReflectionKind) (cls : String) (member : Option String)
deriving DecidableEq, Repr, Inhabited

/-- A method. -/
structure Method where
  /-- The name of the class, a dot, and the simple name. -/
  name : String
  params : List String := []
  body : List Statement := []
deriving DecidableEq, Repr, Inhabited

namespace Method

/-- The simple name of constructors. -/
def constructorName : String := "<init>"

/-- The simple name of the code that runs when a class is loaded. -/
def classLoadName : String := "<clinit>"

/-- The part of a name before the last dot, if there is a dot, and the part after it. -/
def splitName (name : String) : Option String × String :=
  let reversed := name.toList.reverse
  let simple := String.ofList (reversed.takeWhile (· ≠ '.')).reverse
  match reversed.dropWhile (· ≠ '.') with
  | [] => (none, simple)
  | _ :: cls => (some (String.ofList cls.reverse), simple)

/-- The class of a method: its name up to the last dot, empty when there is none. -/
def className (method : Method) : String :=
  (splitName method.name).1.getD ""

/-- The name of a method without its class. -/
def simpleName (method : Method) : String :=
  (splitName method.name).2

/-- The methods that are called directly, in the order of the calls. -/
def callees (method : Method) : List String :=
  method.body.filterMap fun
    | .invoke callee _ _ => some callee
    | _ => none

end Method

/-- A whole program. -/
structure Program where
  entryPoints : List String := []
  methods : List Method := []
deriving DecidableEq, Repr, Inhabited

namespace Program

/-- The first method of a name. -/
def method? (program : Program) (name : String) : Option Method :=
  program.methods.find? (·.name = name)

/-- Where the analysis starts: at the entry points, or at every method when there are none. -/
def roots (program : Program) : List String :=
  if program.entryPoints.isEmpty then
    program.methods.map (·.name)
  else
    program.entryPoints

end Program

end StringReach
