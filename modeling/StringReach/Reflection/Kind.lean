/-!
# Kinds of reflective call
-/

namespace StringReach

/-- What a reflective call asks for. -/
inductive ReflectionKind where
  /-- A class by name. -/
  | classCall
  /-- A new instance of a class given by name. -/
  | classNewInstance
  /-- A constructor of a class. -/
  | constructorCall
  /-- A method of a class by name. -/
  | methodCall
  /-- A field of a class by name. -/
  | fieldCall
deriving DecidableEq, Repr, Inhabited

namespace ReflectionKind

/-- The name of a kind. -/
def name : ReflectionKind → String
  | classCall => "class_call"
  | classNewInstance => "class_new_instance"
  | constructorCall => "constructor_call"
  | methodCall => "method_call"
  | fieldCall => "field_call"

/-- All kinds. -/
def all : List ReflectionKind :=
  [classCall, classNewInstance, constructorCall, methodCall, fieldCall]

/-- The kind of a name. -/
def ofName? (name : String) : Option ReflectionKind :=
  all.find? (·.name = name)

/-- Whether the call names a member of the class. -/
def hasMember : ReflectionKind → Bool
  | methodCall => true
  | fieldCall => true
  | _ => false

end ReflectionKind

end StringReach
