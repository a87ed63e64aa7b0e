import StringReach.Analysis.Analyzer
import StringReach.Proofs.Collection
import StringReach.Proofs.Discovery
import StringReach.Proofs.Reachability
import StringReach.Proofs.Resolution

/-!
# How a run ends

A run repeats its iterations as long as they are not fixed (`Unsettled`) and ends in one of three
ways (`Ended`), unless an iteration fails (`loop_outcome`). For the analysis of a program `Iterates`
says what one iteration does and `Fails` why it fails (`Program.iterate_outcome`), and
`analyze_ended` says that every report is that of a run which has ended. When calls are not
followed, only a string that the engine refuses can make an analysis fail (`Analyzer.Refuses`).
-/

namespace StringReach

namespace Run

variable {σ : Type} {driver : Driver σ} {settings : AnalysisSettings} {start : Run σ}

/-- `Unsettled driver settings start iteration run` says that the iterations before `iteration` have
led from `start` to `run`, and that none of them was fixed. -/
inductive Unsettled (driver : Driver σ) (settings : AnalysisSettings) (start : Run σ) :
    Nat → Run σ → Prop where
  | start : Unsettled driver settings start 0 start
  | next (iteration results run after) : Unsettled driver settings start iteration run →
      iterate driver settings iteration run = .ok (results, false) after →
      Unsettled driver settings start (iteration + 1) after

/-- How a run ends that may repeat its first iteration `limit` times: an iteration was fixed, or the
last one was done, or the time was up. -/
inductive Ended (driver : Driver σ) (settings : AnalysisSettings) (start : Run σ) (limit : Nat) :
    Outcome → Run σ → Prop where
  | converged (last results begun after) : Unsettled driver settings start last begun →
      iterate driver settings last begun = .ok (results, true) after →
      Ended driver settings start limit
        { convergence := .converged, iterations := last + 1, results }
        { after with phase := .ended .converged }
  | capReached (results begun after) : Unsettled driver settings start limit begun →
      iterate driver settings limit begun = .ok (results, false) after →
      Ended driver settings start limit
        { convergence := .iterationCapReached, iterations := limit + 1, results }
        { after with phase := .ended .iterationCapReached }
  | timedOut (last results begun after seconds) : settings.timeoutSeconds = some seconds →
      Unsettled driver settings start last begun →
      iterate driver settings last begun = .ok (results, false) after →
      Ended driver settings start limit
        { convergence := .timedOut, iterations := last + 1, results }
        { after with phase := .ended .timedOut }

/-- The state in which an iteration begins, when the iterations before it succeed. -/
def stateBefore? (driver : Driver σ) (settings : AnalysisSettings) (start : Run σ) :
    Nat → Option (Run σ)
  | 0 => some start
  | iteration + 1 =>
      match stateBefore? driver settings start iteration with
      | none => none
      | some run =>
          match iterate driver settings iteration run with
          | .ok _ after => some after
          | .error _ _ => none

/-- An iteration after iterations that were not fixed begins where they have led to. -/
theorem Unsettled.state_before? {iteration : Nat} {run : Run σ}
    (hrun : Unsettled driver settings start iteration run) :
    stateBefore? driver settings start iteration = some run := by
  induction hrun with
  | start => rfl
  | next iteration results run after _ hiterate ih => simp only [Run.stateBefore?, ih, hiterate]

/-- The last iteration of a run that has ended. -/
theorem Ended.last {limit : Nat} {outcome : Outcome} {final : Run σ}
    (hended : Ended driver settings start limit outcome final) :
    ∃ last begun fixed after, Unsettled driver settings start last begun ∧
      iterate driver settings last begun = .ok (outcome.results, fixed) after ∧
      outcome.iterations = last + 1 ∧ final.knowledge = after.knowledge ∧
      (outcome.convergence = .converged → fixed = true) := by
  cases hended with
  | converged last results begun after hbegun hiterate =>
      exact ⟨last, begun, true, after, hbegun, hiterate, rfl, rfl, fun _ => rfl⟩
  | capReached results begun after hbegun hiterate =>
      exact ⟨limit, begun, false, after, hbegun, hiterate, rfl, rfl, fun h => by cases h⟩
  | timedOut last results begun after _ _ hbegun hiterate =>
      exact ⟨last, begun, false, after, hbegun, hiterate, rfl, rfl, fun h => by cases h⟩

section Loop

variable (clock : Nat → Id Nat) (spare : Nat) {iteration : Nat} {run after : Run σ}
  {results : Results}

/-- A failed iteration ends the loop. -/
theorem loop_of_error {error : Error}
    (hiterate : iterate driver settings iteration run = .error error after) :
    loop driver settings clock spare iteration run = (.error error, after) := by
  rw [loop, hiterate]
  rfl

/-- A fixed iteration ends the loop. -/
theorem loop_of_fixed
    (hiterate : iterate driver settings iteration run = .ok (results, true) after) :
    loop driver settings clock spare iteration run =
      after.finish .converged (iteration + 1) results := by
  rw [loop, hiterate]
  rfl

/-- The last iteration that may be run ends the loop. -/
theorem loop_of_last
    (hiterate : iterate driver settings iteration run = .ok (results, false) after) :
    loop driver settings clock 0 iteration run =
      after.finish .iterationCapReached (iteration + 1) results := by
  rw [loop, hiterate]
  rfl

/-- Any other iteration is followed by the next one, unless the time is up. -/
theorem loop_of_spare
    (hiterate : iterate driver settings iteration run = .ok (results, false) after) :
    loop driver settings clock (spare + 1) iteration run =
      if settings.timeoutSeconds.any fun limit => limit ≤ (clock (iteration + 1)).run then
        after.finish .timedOut (iteration + 1) results
      else
        loop driver settings clock spare (iteration + 1) after := by
  rw [loop, hiterate]
  rfl

end Loop

/-- The loop ends a run or fails in one of its iterations. -/
theorem loop_outcome (clock : Nat → Id Nat) {spare iteration limit : Nat} {run : Run σ}
    (hrun : Unsettled driver settings start iteration run) (hlimit : iteration + spare = limit) :
    (∃ outcome final, loop driver settings clock spare iteration run = (.ok outcome, final) ∧
      Ended driver settings start limit outcome final) ∨
    ∃ error final last begun,
      loop driver settings clock spare iteration run = (.error error, final) ∧
        Unsettled driver settings start last begun ∧
        iterate driver settings last begun = .error error final := by
  induction spare generalizing iteration run with
  | zero =>
      rcases hiterate : iterate driver settings iteration run with
        ⟨⟨results, fixed⟩, after⟩ | ⟨error, after⟩
      · cases fixed with
        | true =>
            exact .inl ⟨_, _, loop_of_fixed clock 0 hiterate, .converged _ _ _ _ hrun hiterate⟩
        | false =>
            obtain rfl : iteration = limit := hlimit
            exact .inl ⟨_, _, loop_of_last clock hiterate, .capReached _ _ _ hrun hiterate⟩
      · exact .inr ⟨error, after, _, _, loop_of_error clock 0 hiterate, hrun, hiterate⟩
  | succ spare ih =>
      rcases hiterate : iterate driver settings iteration run with
        ⟨⟨results, fixed⟩, after⟩ | ⟨error, after⟩
      · cases fixed with
        | true =>
            exact .inl ⟨_, _, loop_of_fixed clock _ hiterate, .converged _ _ _ _ hrun hiterate⟩
        | false =>
            rw [loop_of_spare clock spare hiterate]
            split
            · rename_i hlate
              cases hseconds : settings.timeoutSeconds with
              | none => simp [hseconds] at hlate
              | some seconds =>
                  exact .inl ⟨_, _, rfl, .timedOut _ _ _ _ seconds hseconds hrun hiterate⟩
            · exact ih (.next _ _ _ _ hrun hiterate) (by omega)
      · exact .inr ⟨error, after, _, _, loop_of_error clock _ hiterate, hrun, hiterate⟩

end Run

/-! ## The analysis of a program -/

/-- The edges that an iteration learns from the strings at its reflective calls. -/
def Program.learnedEdges (program : Program) (engine : Engine) (settings : AnalysisSettings)
    (context : Context) (results : Results) : Except Error (List CallEdge) :=
  if settings.iterative then program.reflectiveEdges engine context results else .ok []

/-- One iteration of the analysis of a program leads from `before` to `after`: it collects the
methods that can be reached by the edges known before, resolves their points, and learns the edges
that the strings at these points give. -/
structure Program.Iterates (program : Program) (engine : Engine) (settings : AnalysisSettings)
    (iteration : Nat) (before after : Knowledge) (results : Results) (fixed : Bool) : Prop where
  collected : Context.empty.collectAll (program.reachableMethods before.discovered) =
    .ok after.context
  resolved : after.context.resolveTracked settings.resolver iteration = .ok results
  discovered : ∃ found, program.learnedEdges engine settings after.context results = .ok found ∧
    after.discovered = before.discovered.insertMany found
  fixed_iff : fixed = true ↔ after.discovered.size = before.discovered.size

/-- One iteration of the analysis of a program fails after it has collected its methods: their
points cannot be resolved, or nothing can be learned from the strings at them. -/
inductive Program.Fails (program : Program) (engine : Engine) (settings : AnalysisSettings)
    (iteration : Nat) (before after : Knowledge) : Error → Prop where
  | unresolved (broken) :
      Context.empty.collectAll (program.reachableMethods before.discovered) = .ok after.context →
      after.context.resolveTracked settings.resolver iteration = .error broken →
      Fails program engine settings iteration before after (.violation broken)
  | refused (results error) :
      Context.empty.collectAll (program.reachableMethods before.discovered) = .ok after.context →
      after.context.resolveTracked settings.resolver iteration = .ok results →
      program.learnedEdges engine settings after.context results = .error error →
      Fails program engine settings iteration before after error

namespace Program

variable {program : Program} {engine : Engine} {settings : AnalysisSettings} {iteration : Nat}
  {run run' : Run Knowledge} {context : Context} {results : Results} {fixed : Bool}

/-- An iteration that may learn learns the edges that its strings give. -/
theorem learned_edges_of_iterative (hiterative : settings.iterative = true) :
    program.learnedEdges engine settings context results =
      program.reflectiveEdges engine context results :=
  if_pos hiterative

/-- Every edge that is learned is one that strings give. -/
theorem reflective_edges_of_mem_learned_edges {found : List CallEdge} {edge : CallEdge}
    (hlearned : program.learnedEdges engine settings context results = .ok found)
    (hedge : edge ∈ found) : program.reflectiveEdges engine context results = .ok found := by
  rw [learnedEdges] at hlearned
  split at hlearned
  · exact hlearned
  · cases hlearned
    cases hedge

/-- Where nothing can be learned, an iteration may learn and the engine refuses a string. -/
theorem refuses_of_learned_edges {error : Error}
    (hlearned : program.learnedEdges engine settings context results = .error error) :
    settings.iterative = true ∧ ∃ source reason, error = .invalidPattern source reason ∧
      context.Refuses engine results source reason := by
  rw [learnedEdges] at hlearned
  split at hlearned
  next hiterative => exact ⟨hiterative, refuses_of_reflective_edges hlearned⟩
  next => cases hlearned

/-! ### The steps of the driver -/

/-- Each iteration starts without facts. -/
theorem driver_prepare (knowledge : Knowledge) :
    (program.driver engine).prepare knowledge = .ok () { knowledge with context := .empty } :=
  rfl

/-- The problem of an iteration are the methods that can be reached. -/
theorem driver_build (knowledge : Knowledge) :
    (program.driver engine).build knowledge =
      .ok (program.reachableMethods knowledge.discovered) knowledge :=
  rfl

/-- The facts of an iteration are those of its methods. -/
theorem driver_solve {methods : List Method} {knowledge : Knowledge}
    (hcollect : knowledge.context.collectAll methods = .ok context) :
    (program.driver engine).solve methods knowledge = .ok () { knowledge with context } := by
  simp only [driver, bind, EStateM.bind, get, getThe, MonadStateOf.get, set, MonadStateOf.set]
  delta EStateM.get
  simp only [hcollect]
  rfl

/-- An iteration learns the edges that its strings give, unless the engine refuses a string. -/
theorem driver_is_fixed (knowledge : Knowledge) :
    (program.driver engine).isFixed results knowledge =
      match program.reflectiveEdges engine knowledge.context results with
      | .error error => .error error knowledge
      | .ok found =>
          let discovered := knowledge.discovered.insertMany found
          .ok (decide (discovered.size = knowledge.discovered.size))
            { knowledge with discovered } := by
  simp only [driver, bind, EStateM.bind, get, getThe, MonadStateOf.get, set, MonadStateOf.set]
  delta EStateM.get
  dsimp only
  cases program.reflectiveEdges engine knowledge.context results with
  | error error => rfl
  | ok found => rfl

/-- The facts of an iteration are kept in what is known. -/
theorem driver_context (knowledge : Knowledge) :
    (program.driver engine).context knowledge = knowledge.context :=
  rfl

/-! ### Iterations -/

/-- An iteration collects, resolves and learns, and ends where one of the last two fails. -/
theorem iterate_eq (engine : Engine) (settings : AnalysisSettings) (iteration : Nat)
    (hcollect : Context.empty.collectAll (program.reachableMethods run.knowledge.discovered) =
      .ok context) :
    Run.iterate (program.driver engine) settings iteration run =
      match context.resolveTracked settings.resolver iteration with
      | .error broken =>
          .error (.violation broken)
            { run with
              phase := .iterating iteration
              knowledge := { run.knowledge with context } }
      | .ok results =>
          match program.learnedEdges engine settings context results with
          | .error error =>
              .error error
                { phase := .iterating iteration
                  published := run.published ++ [results]
                  knowledge := { run.knowledge with context } }
          | .ok found =>
              let discovered := run.knowledge.discovered.insertMany found
              .ok (results, decide (discovered.size = run.knowledge.discovered.size))
                { phase := .iterating iteration
                  published := run.published ++ [results]
                  knowledge := { discovered, context } } := by
  have hsolve : (program.driver engine).solve (program.reachableMethods run.knowledge.discovered)
      { run.knowledge with context := .empty } = .ok () { run.knowledge with context } :=
    driver_solve hcollect
  simp only [Run.iterate, Run.advance, bind, EStateM.bind, modify, modifyGet,
    MonadStateOf.modifyGet, get, getThe, MonadStateOf.get]
  delta EStateM.modifyGet EStateM.get
  simp only [driver_prepare, driver_build, hsolve, driver_context]
  cases context.resolveTracked settings.resolver iteration with
  | error broken => rfl
  | ok results =>
      cases hiterative : settings.iterative with
      | false =>
          simp only [learnedEdges, hiterative, Bool.false_eq_true, if_false,
            Std.ExtTreeSet.insertMany_nil, decide_true]
          rfl
      | true =>
          simp only [learnedEdges, hiterative, if_true, EStateM.bind, Run.advance, driver_is_fixed]
          cases program.reflectiveEdges engine context results with
          | error error => rfl
          | ok found => rfl

/-- An iteration succeeds or fails, and in both cases it is known how. -/
theorem iterate_outcome (program : Program) (engine : Engine) (settings : AnalysisSettings)
    (iteration : Nat) (run : Run Knowledge) :
    (∃ results fixed run',
      Run.iterate (program.driver engine) settings iteration run = .ok (results, fixed) run' ∧
      program.Iterates engine settings iteration run.knowledge run'.knowledge results fixed) ∨
    ∃ error run',
      Run.iterate (program.driver engine) settings iteration run = .error error run' ∧
      program.Fails engine settings iteration run.knowledge run'.knowledge error := by
  obtain ⟨context, labels, hcollect, _⟩ :=
    StringReach.exists_collected (program.nodup_reachable_methods run.knowledge.discovered)
  have hiterate := iterate_eq engine settings iteration hcollect
  cases hresolve : context.resolveTracked settings.resolver iteration with
  | error broken =>
      rw [hresolve] at hiterate
      exact .inr ⟨_, _, hiterate, .unresolved broken hcollect hresolve⟩
  | ok results =>
      cases hlearned : program.learnedEdges engine settings context results with
      | error error =>
          simp only [hresolve, hlearned] at hiterate
          exact .inr ⟨_, _, hiterate, .refused results error hcollect hresolve hlearned⟩
      | ok found =>
          simp only [hresolve, hlearned] at hiterate
          exact .inl ⟨_, _, _, hiterate, hcollect, hresolve, ⟨found, hlearned, rfl⟩,
            decide_eq_true_iff⟩

/-- What an iteration did that has succeeded. -/
theorem iterates_of_iterate
    (hiterate : Run.iterate (program.driver engine) settings iteration run =
      .ok (results, fixed) run') :
    program.Iterates engine settings iteration run.knowledge run'.knowledge results fixed := by
  rcases program.iterate_outcome engine settings iteration run with
    ⟨_, _, _, hsuccess, hiterates⟩ | ⟨_, _, hfailure, _⟩
  · cases hiterate.symm.trans hsuccess
    exact hiterates
  · cases hiterate.symm.trans hfailure

/-- Why an iteration has failed. -/
theorem fails_of_iterate {error : Error}
    (hiterate : Run.iterate (program.driver engine) settings iteration run = .error error run') :
    program.Fails engine settings iteration run.knowledge run'.knowledge error := by
  rcases program.iterate_outcome engine settings iteration run with
    ⟨_, _, _, hsuccess, _⟩ | ⟨_, _, hfailure, hfails⟩
  · cases hiterate.symm.trans hsuccess
  · cases hiterate.symm.trans hfailure
    exact hfails

/-- The methods that can be reached leave their facts when they are collected. -/
theorem exists_labels {discovered : Std.ExtTreeSet CallEdge} {context : Context}
    (hcollect : Context.empty.collectAll (program.reachableMethods discovered) = .ok context) :
    ∃ labels, Collected (program.reachableMethods discovered) labels context := by
  obtain ⟨other, labels, hother, hcollected⟩ :=
    StringReach.exists_collected (program.nodup_reachable_methods discovered)
  cases hother.symm.trans hcollect
  exact ⟨labels, hcollected⟩

/-- An iteration leaves the facts of the methods that it has collected. -/
theorem Iterates.exists_collected {before after : Knowledge}
    (hiterates : program.Iterates engine settings iteration before after results fixed) :
    ∃ labels, Collected (program.reachableMethods before.discovered) labels after.context :=
  exists_labels hiterates.collected

/-- When calls are not followed, an iteration fails only where the engine refuses a string. -/
theorem Fails.refuses {before after : Knowledge} {error : Error}
    (hfails : program.Fails engine settings iteration before after error)
    (hcalls : settings.followCalls = false) :
    settings.iterative = true ∧ ∃ results source reason, error = .invalidPattern source reason ∧
      Context.empty.collectAll (program.reachableMethods before.discovered) = .ok after.context ∧
      after.context.resolveTracked settings.resolver iteration = .ok results ∧
      after.context.Refuses engine results source reason := by
  cases hfails with
  | unresolved broken hcollect hresolve =>
      obtain ⟨labels, hcollected⟩ := exists_labels hcollect
      obtain ⟨results, hsuccess⟩ := after.context.exists_resolve_tracked settings.resolver iteration
        (fun _ _ htracked => hcollected.intact.tracked htracked) hcalls
      cases hresolve.symm.trans hsuccess
  | refused results error hcollect hresolve hlearned =>
      obtain ⟨hiterative, source, reason, herror, hrefuses⟩ := refuses_of_learned_edges hlearned
      exact ⟨hiterative, results, source, reason, herror, hcollect, hresolve, hrefuses⟩

end Program

/-! ## Reports -/

namespace Analyzer

variable {analyzer : Analyzer} {engine : Engine} {program : Program} {report : Report}

/-- The state in which an analysis of a program begins. -/
def start (analyzer : Analyzer) : Run Knowledge where
  knowledge := { context := analyzer.context }

/-- With usable settings an analysis is that of the run on which the loop ends: its outcome is
reported, its results are published and its context is left behind. -/
theorem analyze_eq (analyzer : Analyzer) (engine : Engine) (clock : Nat → Id Nat)
    (program : Program)
    (hmax : analyzer.settings.analysis.maxIterations ≠ 0) :
    analyzer.analyze engine clock program =
      let ending := Run.loop (program.driver engine) analyzer.settings.analysis clock
        (analyzer.settings.analysis.maxIterations - 1) 0 analyzer.start
      ({ report := ending.1.map (·.report ending.2.knowledge), published := ending.2.published },
        { analyzer with context := ending.2.knowledge.context }) := by
  rw [analyze, Settings.validate, if_neg hmax]
  rfl

section Loop

variable {clock : Nat → Id Nat} {outcome : Except Error Outcome} {final : Run Knowledge}

/-- With usable settings the report is that of the run on which the loop ends. -/
theorem report_of_loop (analyzer : Analyzer)
    (hmax : analyzer.settings.analysis.maxIterations ≠ 0)
    (hloop : Run.loop (program.driver engine) analyzer.settings.analysis clock
      (analyzer.settings.analysis.maxIterations - 1) 0 analyzer.start = (outcome, final)) :
    (analyzer.analyze engine clock program).1.report = outcome.map (·.report final.knowledge) := by
  rw [analyzer.analyze_eq engine clock program hmax, hloop]

/-- With usable settings an analysis leaves the context of the run on which the loop ends. -/
theorem analyzer_of_loop (analyzer : Analyzer)
    (hmax : analyzer.settings.analysis.maxIterations ≠ 0)
    (hloop : Run.loop (program.driver engine) analyzer.settings.analysis clock
      (analyzer.settings.analysis.maxIterations - 1) 0 analyzer.start = (outcome, final)) :
    (analyzer.analyze engine clock program).2 =
      { analyzer with context := final.knowledge.context } := by
  rw [analyzer.analyze_eq engine clock program hmax, hloop]

end Loop

/-- With usable settings an analysis reports a run which has ended, or an iteration which has
failed. -/
theorem analyze_outcome (analyzer : Analyzer) (engine : Engine) (clock : Nat → Id Nat)
    (program : Program)
    (hmax : analyzer.settings.analysis.maxIterations ≠ 0) :
    (∃ outcome final,
      Run.Ended (program.driver engine) analyzer.settings.analysis analyzer.start
        (analyzer.settings.analysis.maxIterations - 1) outcome final ∧
      (analyzer.analyze engine clock program).1.report = .ok (outcome.report final.knowledge)) ∨
    ∃ error final last begun,
      Run.Unsettled (program.driver engine) analyzer.settings.analysis analyzer.start last begun ∧
      Run.iterate (program.driver engine) analyzer.settings.analysis last begun =
        .error error final ∧
      (analyzer.analyze engine clock program).1.report = .error error := by
  rcases Run.loop_outcome clock .start (Nat.zero_add _) with
    ⟨outcome, final, hloop, hended⟩ | ⟨error, final, last, begun, hloop, hbegun, hiterate⟩
  · exact .inl ⟨outcome, final, hended, analyzer.report_of_loop hmax hloop⟩
  · exact .inr ⟨error, final, last, begun, hbegun, hiterate, analyzer.report_of_loop hmax hloop⟩

/-- A report is that of a run which has ended, and the context of that run is left behind. -/
theorem analyze_ended_left {clock : Nat → Id Nat}
    (hreport : (analyzer.analyze engine clock program).1.report = .ok report) :
    ∃ outcome final,
      Run.Ended (program.driver engine) analyzer.settings.analysis analyzer.start
        (analyzer.settings.analysis.maxIterations - 1) outcome final ∧
      report = outcome.report final.knowledge ∧
      (analyzer.analyze engine clock program).2 =
        { analyzer with context := final.knowledge.context } := by
  by_cases hmax : analyzer.settings.analysis.maxIterations = 0
  · rw [analyze, Settings.validate, if_pos hmax] at hreport
    cases hreport
  · rcases Run.loop_outcome clock .start (Nat.zero_add _) with
      ⟨outcome, final, hloop, hended⟩ | ⟨error, final, last, begun, hloop, _⟩
    · refine ⟨outcome, final, hended, ?_, analyzer.analyzer_of_loop hmax hloop⟩
      exact Except.ok.inj (hreport.symm.trans (analyzer.report_of_loop hmax hloop))
    · cases hreport.symm.trans (analyzer.report_of_loop hmax hloop)

/-- A report is that of a run which has ended. -/
theorem analyze_ended {clock : Nat → Id Nat}
    (hreport : (analyzer.analyze engine clock program).1.report = .ok report) :
    ∃ outcome final,
      Run.Ended (program.driver engine) analyzer.settings.analysis analyzer.start
        (analyzer.settings.analysis.maxIterations - 1) outcome final ∧
      report = outcome.report final.knowledge := by
  obtain ⟨outcome, final, hended, houtcome, _⟩ := analyze_ended_left hreport
  exact ⟨outcome, final, hended, houtcome⟩

/-- The names of the methods that can be reached in an iteration of an analysis. -/
def reachableIn (analyzer : Analyzer) (engine : Engine) (program : Program) (iteration : Nat) :
    List String :=
  match Run.stateBefore? (program.driver engine) analyzer.settings.analysis analyzer.start
      iteration with
  | none => []
  | some run => (CallGraph.ofProgram program run.knowledge.discovered.toList).reachable

/-- The methods that an iteration of an analysis collects. -/
def collectedIn (analyzer : Analyzer) (engine : Engine) (program : Program) (iteration : Nat) :
    List Method :=
  (analyzer.reachableIn engine program iteration).filterMap program.method?

/-- An iteration collects the methods that can be reached where it begins. -/
theorem collected_in_of_unsettled {iteration : Nat} {begun : Run Knowledge}
    (hbegun : Run.Unsettled (program.driver engine) analyzer.settings.analysis analyzer.start
      iteration begun) :
    analyzer.collectedIn engine program iteration =
      program.reachableMethods begun.knowledge.discovered := by
  rw [collectedIn, reachableIn, hbegun.state_before?]
  rfl

/-- The engine refuses a string from which an analysis learns in one of its iterations. -/
def Refuses (analyzer : Analyzer) (engine : Engine) (program : Program) (source reason : String) :
    Prop :=
  analyzer.settings.analysis.iterative = true ∧ ∃ iteration context results,
    Context.empty.collectAll (analyzer.collectedIn engine program iteration) = .ok context ∧
    context.resolveTracked analyzer.settings.analysis.resolver iteration = .ok results ∧
    context.Refuses engine results source reason

/-- When calls are not followed, an analysis fails only where the engine refuses a string. -/
theorem refuses_of_fails (hcalls : analyzer.settings.analysis.followCalls = false)
    {iteration : Nat} {begun : Run Knowledge} {after : Knowledge} {error : Error}
    (hbegun : Run.Unsettled (program.driver engine) analyzer.settings.analysis analyzer.start
      iteration begun)
    (hfails : program.Fails engine analyzer.settings.analysis iteration begun.knowledge after
      error) :
    ∃ source reason, error = .invalidPattern source reason ∧
      analyzer.Refuses engine program source reason := by
  obtain ⟨hiterative, results, source, reason, herror, hcollect, hresolve, hrefuses⟩ :=
    hfails.refuses hcalls
  rw [← collected_in_of_unsettled hbegun] at hcollect
  exact ⟨source, reason, herror, hiterative, iteration, after.context, results, hcollect, hresolve,
    hrefuses⟩

/-- An analysis does not fail at a string with an engine that refuses nothing. -/
theorem not_refuses_unlimited (analyzer : Analyzer) (program : Program) (source reason : String) :
    ¬ analyzer.Refuses .unlimited program source reason :=
  fun ⟨_, _, _, _, _, _, hrefuses⟩ => Context.not_refuses_unlimited hrefuses

end Analyzer

/-- The number of the last iteration of an analysis, counted from zero. -/
def Report.lastIteration (report : Report) : Nat :=
  report.iterations - 1

/-- The results of the last iteration of an analysis. -/
def Report.results (report : Report) : Results where
  iteration := report.lastIteration
  points := report.points

/-- `LastIteration analyzer engine program report before after fixed` says that the last iteration
of an analysis has led from `before` to `after`, and that the report is about it. -/
structure LastIteration (analyzer : Analyzer) (engine : Engine) (program : Program)
    (report : Report) (before after : Knowledge) (fixed : Bool) : Prop where
  iterates : program.Iterates engine analyzer.settings.analysis report.lastIteration before after
    report.results fixed
  reachable : analyzer.reachableIn engine program report.lastIteration =
    (CallGraph.ofProgram program before.discovered.toList).reachable
  collected : analyzer.collectedIn engine program report.lastIteration =
    program.reachableMethods before.discovered
  discoveredEdges : report.discoveredEdges = after.discovered.toList
  converged : report.convergence = .converged → fixed = true

/-- Every report is about a last iteration, whose context is left behind. -/
theorem Analyzer.exists_last_iteration_left {analyzer : Analyzer} {engine : Engine}
    {program : Program} {report : Report} {clock : Nat → Id Nat}
    (hreport : (analyzer.analyze engine clock program).1.report = .ok report) :
    ∃ before after fixed, LastIteration analyzer engine program report before after fixed ∧
      (analyzer.analyze engine clock program).2 = { analyzer with context := after.context } := by
  obtain ⟨outcome, final, hended, rfl, hleft⟩ := analyze_ended_left hreport
  obtain ⟨last, begun, fixed, after, hbegun, hiterate, hiterations, hfinal, hconverged⟩ :=
    hended.last
  have hiterates := Program.iterates_of_iterate hiterate
  have hlast : (outcome.report final.knowledge).lastIteration = last := by
    show outcome.iterations - 1 = last
    rw [hiterations, Nat.add_sub_cancel]
  have hresults : (outcome.report final.knowledge).results = outcome.results := by
    obtain ⟨hiteration, _⟩ := Context.resolved_at_of_resolve_tracked hiterates.resolved
    rw [Report.results, hlast, ← hiteration]
    rfl
  have hreachable : analyzer.reachableIn engine program last =
      (CallGraph.ofProgram program begun.knowledge.discovered.toList).reachable := by
    rw [reachableIn, hbegun.state_before?]
  refine ⟨begun.knowledge, final.knowledge, fixed, ⟨?_, ?_, ?_, rfl, hconverged⟩, hleft⟩
  · rw [hlast, hresults, hfinal]
    exact hiterates
  · rw [hlast]
    exact hreachable
  · rw [hlast]
    exact collected_in_of_unsettled hbegun

/-- Every report is about a last iteration. -/
theorem Analyzer.exists_last_iteration {analyzer : Analyzer} {engine : Engine} {program : Program}
    {report : Report} {clock : Nat → Id Nat}
    (hreport : (analyzer.analyze engine clock program).1.report = .ok report) :
    ∃ before after fixed, LastIteration analyzer engine program report before after fixed := by
  obtain ⟨before, after, fixed, hlast, _⟩ := exists_last_iteration_left hreport
  exact ⟨before, after, fixed, hlast⟩

/-- Only methods of the program are collected. -/
theorem Analyzer.mem_of_mem_collected_in {analyzer : Analyzer} {engine : Engine}
    {program : Program} {iteration : Nat} {method : Method}
    (hmem : method ∈ analyzer.collectedIn engine program iteration) :
    method ∈ program.methods := by
  obtain ⟨name, _, hfind⟩ := List.mem_filterMap.mp hmem
  exact List.mem_of_find?_eq_some hfind

/-- The methods that the roots name are collected in the last iteration. -/
theorem LastIteration.root_mem {analyzer : Analyzer} {engine : Engine} {program : Program}
    {report : Report} {before after : Knowledge} {fixed : Bool}
    (hlast : LastIteration analyzer engine program report before after fixed) {method : Method}
    (hroot : method.name ∈ program.roots) (hfind : program.method? method.name = some method) :
    method ∈ analyzer.collectedIn engine program report.lastIteration := by
  rw [hlast.collected, Program.mem_reachable_methods, CallGraph.mem_reachable,
    CallGraph.entries_of_program]
  exact ⟨⟨method.name, hroot, .refl⟩, hfind⟩

end StringReach
