import StringReach.Analysis.Context
import StringReach.Analysis.Results

/-!
# Iterating a whole-program analysis

An analysis is run again and again, each time on a problem built from what is known by then, until
it learns nothing more, the iterations are used up or the time is. The results of every iteration
are published; the last ones count.

A failure ends the run. Whatever the analysis did before it failed stays done.
-/

namespace StringReach

/-- The parts of an analysis that a run calls in turn. The state holds what the analysis knows, its
context included. -/
structure Driver (σ : Type) where
  /-- The problem of one iteration. -/
  Problem : Type
  /-- Get ready for an iteration. -/
  prepare : EStateM Error σ Unit
  /-- Build the problem of the iteration. -/
  build : EStateM Error σ Problem
  /-- Gather the facts of the problem. -/
  solve : Problem → EStateM Error σ Unit
  /-- Learn from the results, and say whether there was nothing to learn. -/
  isFixed : Results → EStateM Error σ Bool
  /-- The facts gathered so far. -/
  context : σ → Context

/-- How a run ended. -/
inductive Convergence where
  | converged
  | iterationCapReached
  | timedOut
deriving DecidableEq, Repr, Inhabited

/-- Where a run is. -/
inductive Phase where
  | uninitialized
  | iterating (iteration : Nat)
  | ended (convergence : Convergence)
deriving DecidableEq, Repr, Inhabited

/-- The state of a run. -/
structure Run (σ : Type) where
  phase : Phase := .uninitialized
  /-- The results published so far, in order. -/
  published : List Results := []
  /-- What the analysis knows. -/
  knowledge : σ

/-- The outcome of a run that did not fail. -/
structure Outcome where
  convergence : Convergence
  iterations : Nat
  results : Results
deriving DecidableEq

/-- Resolve every tracked point of a context, in the order of the points. -/
def Context.resolveTracked (context : Context) (settings : ResolverSettings) (iteration : Nat) :
    Except Violation Results := do
  let points ← context.tracked.toList.mapM fun (point, box) => do
    let resolution ← context.arena.resolve settings box
    pure { point, resolution : ResolvedPoint }
  pure { iteration, points }

namespace Run

variable {σ α : Type}

/-- Let the analysis take a step of its own. -/
def advance (action : EStateM Error σ α) : EStateM Error (Run σ) α := fun run =>
  match action run.knowledge with
  | .ok value knowledge => .ok value { run with knowledge }
  | .error error knowledge => .error error { run with knowledge }

/-- Run one iteration up to the publication of its results, and say whether the analysis is at a
fixed point. A run that is not iterative is always at one. -/
def iterate (driver : Driver σ) (settings : AnalysisSettings) (iteration : Nat) :
    EStateM Error (Run σ) (Results × Bool) := do
  modify ({ · with phase := .iterating iteration })
  advance driver.prepare
  let problem ← advance driver.build
  advance (driver.solve problem)
  let run ← get
  match (driver.context run.knowledge).resolveTracked settings.resolver iteration with
  | .error broken => throw (.violation broken)
  | .ok results =>
      modify fun run => { run with published := run.published ++ [results] }
      let fixed ← if settings.iterative then advance (driver.isFixed results) else pure true
      pure (results, fixed)

/-- The outcome of a run, and the state it ends in. -/
def finish (run : Run σ) (convergence : Convergence) (iterations : Nat) (results : Results) :
    Except Error Outcome × Run σ :=
  (.ok { convergence, iterations, results }, { run with phase := .ended convergence })

variable {m : Type → Type} [Monad m]

/-- Run iterations until one of the ends is reached. After this one, `spare` further iterations may
be run. The clock says how many seconds have passed when a number of iterations is done. -/
def loop (driver : Driver σ) (settings : AnalysisSettings) (clock : Nat → m Nat) :
    (spare : Nat) → (iteration : Nat) → Run σ → m (Except Error Outcome × Run σ)
  | spare, iteration, run =>
      match iterate driver settings iteration run with
      | .error error run => pure (.error error, run)
      | .ok (results, fixed) run =>
          if fixed then
            pure (run.finish .converged (iteration + 1) results)
          else match spare with
            | 0 => pure (run.finish .iterationCapReached (iteration + 1) results)
            | spare + 1 => do
                let seconds ← clock (iteration + 1)
                if settings.timeoutSeconds.any (· ≤ seconds) then
                  pure (run.finish .timedOut (iteration + 1) results)
                else
                  loop driver settings clock spare (iteration + 1) run

/-- Run an analysis from what it knows at first. -/
def start (driver : Driver σ) (settings : AnalysisSettings) (clock : Nat → m Nat) (knowledge : σ) :
    m (Except Error Outcome × Run σ) :=
  loop driver settings clock (settings.maxIterations - 1) 0 { knowledge }

end Run

end StringReach
