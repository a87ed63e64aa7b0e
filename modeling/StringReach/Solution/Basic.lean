import StringReach.Text.Wildcard
import Std.Data.ExtTreeSet

/-!
# Solutions

A solution is what is known of a value: the strings that it may be, in which a wildcard stands for
an unknown part, and a count of the places where precision was lost. The count has no bound. What is
shown of it is a word of 64 bits, in which a sum begins again at zero when it does not fit.
-/

namespace StringReach

/-- A set of possible strings with the number of warnings met on the way to it. -/
structure Solution where
  strings : Std.ExtTreeSet String := ∅
  warnings : Nat := 0
deriving DecidableEq

namespace Solution

/-- No string and no warning. -/
def empty : Solution := {}

/-- Exactly one string. -/
def literal (text : String) : Solution :=
  { strings := Std.ExtTreeSet.empty.insert text }

/-- Any string. -/
def wildcard : Solution :=
  literal Wildcard.marker

/-- No string, and a warning that says so. -/
def warning : Solution :=
  { warnings := 1 }

/-- Any string, with a warning that precision was lost. -/
def cut : Solution :=
  { wildcard with warnings := 1 }

/-- Either of two values. -/
def merge (a b : Solution) : Solution :=
  { strings := a.strings ∪ b.strings, warnings := a.warnings + b.warnings }

/-- Any of several values. -/
def mergeAll (solutions : List Solution) : Solution :=
  solutions.foldl merge empty

/-- One value followed by another. -/
def concat (a b : Solution) : Solution :=
  { strings := .ofList (a.strings.toList.flatMap fun left => b.strings.toList.map (left ++ ·))
    warnings := a.warnings + b.warnings }

/-- The count of warnings in a word of 64 bits. -/
def counter (solution : Solution) : UInt64 :=
  .ofNat solution.warnings

/-- Whether some string has an unknown part. -/
def hasWildcard (solution : Solution) : Bool :=
  solution.strings.toList.any Wildcard.occursIn

/-- The strings without an unknown part, in order. -/
def exact (solution : Solution) : List String :=
  solution.strings.toList.filter (!Wildcard.occursIn ·)

/-- The text of a solution: each string in quotes, followed by a semicolon, between braces. -/
def text (solution : Solution) : String :=
  "\x7b" ++ String.join (solution.strings.toList.map fun s => "\"" ++ s ++ "\"; ") ++ "\x7d"

end Solution

end StringReach
