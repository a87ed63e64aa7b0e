import StringReach.Settings
import StringReach.Solution.Acyclic
import StringReach.Solution.Bounded

/-!
# Resolving a term

A term is first checked for recursion. An acyclic term may then take the shorter way; every other
term is solved to a bounded depth.
-/

namespace StringReach

/-- Which solver was used. -/
inductive Strategy where
  | acyclic
  | bounded
deriving DecidableEq, Repr, Inhabited

/-- The name of a strategy. -/
def Strategy.name : Strategy → String
  | acyclic => "dag"
  | bounded => "bounded"

/-- The settings that resolving a term depends on. -/
structure ResolverSettings where
  recursionDepth : Nat := Arena.defaultDepth
  inlineDepth : Nat := 0
  followCalls : Bool := false
  acyclicFastPath : Bool := true
deriving DecidableEq, Repr, Inhabited

/-- The part of the analysis settings that resolving a term depends on. -/
def AnalysisSettings.resolver (settings : AnalysisSettings) : ResolverSettings where
  recursionDepth := settings.recursionDepth
  inlineDepth := settings.inlineDepth
  followCalls := settings.followCalls
  acyclicFastPath := settings.acyclicFastPath

/-- A solution with the way it was found. -/
structure Resolution where
  solution : Solution
  recursive : Bool
  strategy : Strategy
deriving DecidableEq

/-- Resolve a box. -/
def Arena.resolve (arena : Arena) (settings : ResolverSettings) (root : Handle) :
    Except Violation Resolution := do
  let recursive ← arena.isRecursive settings.followCalls root
  if !recursive && settings.acyclicFastPath then
    let solution ← arena.evaluate root
    pure { solution, recursive, strategy := .acyclic }
  else
    let solution ← arena.solveBounded settings.recursionDepth root
    pure { solution, recursive, strategy := .bounded }

end StringReach
