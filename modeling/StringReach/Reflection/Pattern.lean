import StringReach.Error
import StringReach.Reflection.Engine
import StringReach.Text.Wildcard

/-!
# Patterns

A resolved string is read as a pattern for names: each wildcard stands for any text without a line
break, and every other character for itself. The pattern is handed to an engine as an expression for
the whole of a name.
-/

namespace StringReach

/-- A string read as a pattern. -/
structure Pattern where
  source : String
  /-- Whether a text is matched. -/
  accepts : String → Bool

namespace Pattern

/-- The expression of a pattern: its pieces, with any text between them. -/
def expression (engine : Engine) (source : String) : String :=
  let pieces := (Wildcard.pieces source.toList).map fun piece => engine.escape (String.ofList piece)
  "^" ++ String.intercalate ".*" pieces ++ "$"

/-- Read a string as a pattern, unless the engine refuses its expression. -/
def compile (engine : Engine) (source : String) : Except Error Pattern :=
  match engine.compile (expression engine source) with
  | .ok accepts => .ok { source, accepts }
  | .error reason => .error (.invalidPattern source reason)

/-- Whether a pattern says nothing about the text that it matches. -/
def isUnconstrained (pattern : Pattern) : Bool :=
  Wildcard.isUnconstrained pattern.source

end Pattern

end StringReach
