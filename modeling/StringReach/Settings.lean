import StringReach.Error

/-!
# Settings

The settings of an analysis and of its output, with the values they take when nothing is said.
-/

namespace StringReach

/-- How a program is analysed. -/
structure AnalysisSettings where
  /-- Repeat the analysis until no new call edge is found. -/
  iterative : Bool := true
  /-- The most iterations to run. -/
  maxIterations : Nat := 15
  /-- How often a box is unfolded again on its own path before it is cut off. -/
  recursionDepth : Nat := 5
  /-- How deep calls are looked into. Calls are not looked into yet, so this changes nothing. -/
  inlineDepth : Nat := 0
  /-- Whether a call that is met is a violation. -/
  followCalls : Bool := false
  /-- Whether acyclic terms take the shorter way. -/
  acyclicFastPath : Bool := true
  /-- The time budget in seconds, looked at after each iteration. -/
  timeoutSeconds : Option Nat := none
deriving DecidableEq, Repr, Inhabited

/-- What is shown besides the results. -/
structure OutputSettings where
  showTerms : Bool := false
  showHandles : Bool := false
deriving DecidableEq, Repr, Inhabited

/-- All settings. -/
structure Settings where
  analysis : AnalysisSettings := {}
  output : OutputSettings := {}
deriving DecidableEq, Repr, Inhabited

/-- Refuse settings under which nothing could run. -/
def Settings.validate (settings : Settings) : Except Error Unit :=
  if settings.analysis.maxIterations = 0 then .error .noIterations else .ok ()

end StringReach
