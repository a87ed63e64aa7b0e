import StringReach.Proofs.Convergence
import StringReach.Proofs.Violations

/-!
# Analyses do not see each other

An analyzer keeps the context of its last analysis, also of one that has failed. The next analysis
forgets it before anything reads it: an iteration depends on the edges found so far and on what was
published, not on the context in which it begins (`Program.iterate_congr`), and a new analysis
begins without either. So whatever an analyzer has analysed before, the next analysis is that of a
new analyzer (`analysis_isolated`).

The clock is the other thing from outside that a run could see. It is not looked at without a time
limit, and a limit of no seconds is always over, whatever the clock says (`Run.loop_clock`).
-/

namespace StringReach

/-! ## Clocks and contexts do not matter -/

/-- There is no time limit, or one that is over at once. -/
def AnalysisSettings.Timeless (settings : AnalysisSettings) : Prop :=
  settings.timeoutSeconds = none ∨ settings.timeoutSeconds = some 0

/-- Without a time limit that the clock could decide, all clocks lead to the same end. -/
theorem Run.loop_clock {σ : Type} {driver : Driver σ} {settings : AnalysisSettings}
    (htime : settings.Timeless) (clock clock' : Nat → Id Nat) (spare iteration : Nat)
    (run : Run σ) :
    loop driver settings clock spare iteration run =
      loop driver settings clock' spare iteration run := by
  induction spare generalizing iteration run with
  | zero =>
      -- The last iteration ends without a look at the clock.
      unfold loop
      rfl
  | succ spare ih =>
      rcases hiterate : iterate driver settings iteration run with
        ⟨⟨results, fixed⟩, after⟩ | ⟨error, after⟩
      · cases fixed with
        | true => rw [loop_of_fixed clock _ hiterate, loop_of_fixed clock' _ hiterate]
        | false =>
            rw [loop_of_spare clock spare hiterate, loop_of_spare clock' spare hiterate,
              ih (iteration + 1) after]
            rcases htime with hnone | hzero
            · simp [hnone]
            · simp [hzero]
      · rw [loop_of_error clock _ hiterate, loop_of_error clock' _ hiterate]

namespace Program

variable {program : Program} {engine : Engine} {settings : AnalysisSettings}
  {run run' : Run Knowledge}

/-- What an iteration does depends on the edges found so far and on what was published, and not on
the context that it begins with. -/
theorem iterate_congr (iteration : Nat) (hpublished : run.published = run'.published)
    (hdiscovered : run.knowledge.discovered = run'.knowledge.discovered) :
    Run.iterate (program.driver engine) settings iteration run =
      Run.iterate (program.driver engine) settings iteration run' := by
  obtain ⟨phase, published, ⟨discovered, context⟩⟩ := run
  obtain ⟨phase', published', ⟨discovered', context'⟩⟩ := run'
  obtain rfl : published = published' := hpublished
  obtain rfl : discovered = discovered' := hdiscovered
  obtain ⟨context, labels, hcollect, _⟩ :=
    StringReach.exists_collected (program.nodup_reachable_methods discovered)
  rw [iterate_eq engine settings iteration hcollect, iterate_eq engine settings iteration hcollect]

/-- Nor does a whole run depend on the context that it begins with. -/
theorem loop_congr (clock : Nat → Id Nat) (spare iteration : Nat)
    (hpublished : run.published = run'.published)
    (hdiscovered : run.knowledge.discovered = run'.knowledge.discovered) :
    Run.loop (program.driver engine) settings clock spare iteration run =
      Run.loop (program.driver engine) settings clock spare iteration run' := by
  unfold Run.loop
  simp only [iterate_congr iteration hpublished hdiscovered]

end Program

/-! ## One analyzer and another -/

namespace Analyzer

variable {engine : Engine} {settings : Settings}

/-- With usable settings and without a time limit that a clock could decide, an analysis does not
depend on what the analyzer keeps. -/
theorem analyze_congr (hmax : settings.analysis.maxIterations ≠ 0)
    (htime : settings.analysis.Timeless) (context context' : Context)
    (clock clock' : Nat → Id Nat) (program : Program) :
    analyze { settings, context } engine clock program =
      analyze { settings, context := context' } engine clock' program := by
  have hloop : Run.loop (program.driver engine) settings.analysis clock
        (settings.analysis.maxIterations - 1) 0 (start { settings, context }) =
      Run.loop (program.driver engine) settings.analysis clock'
        (settings.analysis.maxIterations - 1) 0 (start { settings, context := context' }) := by
    rw [Run.loop_clock htime clock clock']
    exact Program.loop_congr clock' _ _ rfl rfl
  rw [analyze_eq _ engine clock program hmax, analyze_eq _ engine clock' program hmax]
  simp only [hloop]

/-- Settings that cannot be used are refused: nothing is published, and the analyzer stays as it
is. -/
theorem analyze_invalid {error : Error} (hinvalid : settings.validate = .error error)
    (context : Context) (clock : Nat → Id Nat) (program : Program) :
    analyze { settings, context } engine clock program =
      ({ report := .error error, published := [] }, { settings, context }) := by
  rw [analyze, hinvalid]
  rfl

/-- An analysis keeps the settings. -/
theorem settings_analyze (analyzer : Analyzer) (engine : Engine) (clock : Nat → Id Nat)
    (program : Program) :
    (analyzer.analyze engine clock program).2.settings = analyzer.settings := by
  unfold analyze
  split <;> rfl

/-- The analyzer after some programs were analysed, each by a clock of its own. -/
def after (analyzer : Analyzer) (engine : Engine) (history : List ((Nat → Id Nat) × Program)) :
    Analyzer :=
  history.foldl (fun analyzer request => (analyzer.analyze engine request.1 request.2).2) analyzer

/-- Analyses keep the settings. -/
theorem settings_after (analyzer : Analyzer) (engine : Engine)
    (history : List ((Nat → Id Nat) × Program)) :
    (analyzer.after engine history).settings = analyzer.settings := by
  induction history generalizing analyzer with
  | nil => rfl
  | cons request rest ih =>
      exact (ih _).trans (analyzer.settings_analyze engine request.1 request.2)

/-- With settings that cannot be used, an analyzer stays as it is. -/
theorem after_invalid {error : Error} (hinvalid : settings.validate = .error error)
    (context : Context) (history : List ((Nat → Id Nat) × Program)) :
    after { settings, context } engine history = { settings, context } := by
  induction history with
  | nil => rfl
  | cons request rest ih =>
      rw [after, List.foldl_cons, analyze_invalid hinvalid]
      exact ih

/-- Whatever a new analyzer has analysed, the next analysis is that of a new analyzer. -/
theorem analyze_after (htime : settings.analysis.Timeless)
    (history : List ((Nat → Id Nat) × Program)) (clock clock' : Nat → Id Nat) (program : Program) :
    (after { settings } engine history).analyze engine clock program =
      analyze { settings } engine clock' program := by
  by_cases hmax : settings.analysis.maxIterations = 0
  · have hinvalid : settings.validate = .error .noIterations := if_pos hmax
    rw [after_invalid hinvalid, analyze_invalid hinvalid, analyze_invalid hinvalid]
  · have hused : after { settings } engine history =
        { settings, context := (after { settings } engine history).context } := by
      rw [Analyzer.mk.injEq]
      exact ⟨settings_after _ engine history, rfl⟩
    rw [hused]
    exact analyze_congr hmax htime _ _ clock clock' program

end Analyzer

/-- Analyses of one analyzer do not see each other. Without a time limit, or with one that is over
at once, the analysis of a program by an analyzer that has analysed any programs before, with or
without success, has the report or error, the published results, the dump and the number of boxes
that it has for a new analyzer with the same settings, whatever the clocks say. Settings that cannot
be used give an error, publish nothing and leave the context as it was. -/
theorem analysis_isolated (engine : Engine) (settings : Settings) :
    (settings.analysis.Timeless →
      ∀ (history : List ((Nat → Id Nat) × Program)) (clock clock' : Nat → Id Nat)
        (program : Program),
      ((Analyzer.after { settings } engine history).analyze engine clock program).1.report =
        (Analyzer.analyze { settings } engine clock' program).1.report ∧
      ((Analyzer.after { settings } engine history).analyze engine clock program).1.published =
        (Analyzer.analyze { settings } engine clock' program).1.published ∧
      ((Analyzer.after { settings } engine history).analyze engine clock program).2.dump =
        (Analyzer.analyze { settings } engine clock' program).2.dump ∧
      ((Analyzer.after { settings } engine history).analyze engine clock
          program).2.context.arena.size =
        (Analyzer.analyze { settings } engine clock' program).2.context.arena.size) ∧
    ∀ (error : Error) (context : Context) (clock : Nat → Id Nat) (program : Program),
      settings.validate = .error error →
      (Analyzer.analyze { settings, context } engine clock program).1.report = .error error ∧
      (Analyzer.analyze { settings, context } engine clock program).1.published = [] ∧
      (Analyzer.analyze { settings, context } engine clock program).2.context = context := by
  constructor
  · intro htime history clock clock' program
    rw [Analyzer.analyze_after htime history clock clock' program]
    exact ⟨rfl, rfl, rfl, rfl⟩
  · intro error context clock program hinvalid
    rw [Analyzer.analyze_invalid hinvalid]
    exact ⟨rfl, rfl, rfl⟩

/-- Settings without a single iteration. -/
def idleSettings : Settings where
  analysis := { maxIterations := 0 }

/-- A clock on which an iteration takes a second. -/
def steadyClock : Nat → Id Nat := fun iteration => iteration

/-- Two analyses to come before another. Where calls are followed, the second of them fails in its
second iteration. -/
def pastAnalyses : List ((Nat → Id Nat) × Program) :=
  [(steadyClock, pluginProgram), (steadyClock, Analyzer.callProgram)]

/-- The program with a plugin is analysed after two others as by a new analyzer. -/
theorem analysis_isolated_calls :
    (Analyzer.callAnalyzer.settings.analysis.Timeless ∧
      ((Analyzer.callAnalyzer.after .standard pastAnalyses).analyze .standard steadyClock
          pluginProgram).1.report =
        (Analyzer.callAnalyzer.analyze .standard (fun _ => (0 : Id Nat))
          pluginProgram).1.report ∧
      ((Analyzer.callAnalyzer.after .standard pastAnalyses).analyze .standard steadyClock
          pluginProgram).2.dump =
        (Analyzer.callAnalyzer.analyze .standard (fun _ => (0 : Id Nat))
          pluginProgram).2.dump) ∧
    idleSettings.validate = .error .noIterations ∧
      (Analyzer.analyze { settings := idleSettings } .standard steadyClock
        pluginProgram).1.report = .error .noIterations := by
  have htime : Analyzer.callAnalyzer.settings.analysis.Timeless := .inl rfl
  have hinvalid : idleSettings.validate = .error .noIterations := rfl
  obtain ⟨hreport, -, hdump, -⟩ :=
    (analysis_isolated .standard Analyzer.callAnalyzer.settings).1 htime
      pastAnalyses steadyClock (fun _ => (0 : Id Nat)) pluginProgram
  obtain ⟨hrefused, -, -⟩ :=
    (analysis_isolated .standard idleSettings).2 _ .empty steadyClock pluginProgram hinvalid
  exact ⟨⟨htime, hreport, hdump⟩, hinvalid, hrefused⟩

end StringReach
