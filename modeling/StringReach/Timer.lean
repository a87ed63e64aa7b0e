/-!
# Timers

A timer adds up the spans between its starts and stops. Times are whole nanoseconds.
-/

namespace StringReach

/-- A stopwatch that accumulates. -/
structure Timer where
  total : Nat := 0
  started : Option Nat := none
deriving DecidableEq, Repr, Inhabited

namespace Timer

/-- Start at a time. A running timer starts anew. -/
def start (timer : Timer) (now : Nat) : Timer :=
  { timer with started := some now }

/-- Stop at a time and add the span; nothing happens when the timer is not running. -/
def stop (timer : Timer) (now : Nat) : Timer :=
  match timer.started with
  | some started => { total := timer.total + (now - started) }
  | none => timer

/-- Forget everything. -/
def reset (_ : Timer) : Timer := {}

/-- A number of units with the fraction that is left over, which has a fixed number of digits. Zeros
at the end of the fraction are not written. -/
def decimal (units fraction digits : Nat) : String :=
  let written := (Nat.toDigits 10 (Nat.pow 10 digits + fraction)).drop 1
  match (written.reverse.dropWhile (· = '0')).reverse with
  | [] => units.repr
  | shown => units.repr ++ "." ++ String.ofList shown

/-- The text of a span in the largest unit of which it has one. -/
def spanText (nanoseconds : Nat) : String :=
  if nanoseconds < 1_000 then
    nanoseconds.repr ++ "ns"
  else if nanoseconds < 1_000_000 then
    decimal (nanoseconds / 1_000) (nanoseconds % 1_000) 3 ++ "µs"
  else if nanoseconds < 1_000_000_000 then
    decimal (nanoseconds / 1_000_000) (nanoseconds % 1_000_000) 6 ++ "ms"
  else
    decimal (nanoseconds / 1_000_000_000) (nanoseconds % 1_000_000_000) 9 ++ "s"

end Timer

/-- The timers of an iteration. -/
structure Timers where
  problemGeneration : Timer := {}
  solution : Timer := {}
  misc : Timer := {}
deriving DecidableEq, Repr, Inhabited

/-- The text of the timers. -/
def Timers.text (timers : Timers) : String :=
  "problem generation " ++ Timer.spanText timers.problemGeneration.total ++
    ", solution " ++ Timer.spanText timers.solution.total ++
    ", misc " ++ Timer.spanText timers.misc.total

end StringReach
