import StringReach.Proofs.Run

/-!
# The calls that a run makes

A run calls its driver in a fixed order, publishes what it resolves and decides when to stop. To
say which calls it makes, a driver is made to keep a list of them (`Driver.recorded`). `Attempt`
lists the ways in which one iteration can go, and `Underway` is what the iterations that were not
fixed leave behind them. By `start_keeps_protocol` the recorded run is the run of the driver itself,
and its calls, its results and its phase are those of the protocol, whatever the driver answers and
whatever the clock says.
-/

namespace StringReach

variable {σ α β : Type}

/-! ## Drivers that record their calls -/

/-- A call of a run to its driver, with the answer. A problem is not part of the answer. -/
inductive Driver.Call where
  | prepare (answer : Except Error Unit)
  | build (answer : Except Error Unit)
  | solve (answer : Except Error Unit)
  | isFixed (results : Results) (answer : Except Error Bool)

open Driver (Call)

/-- The call that builds a problem. -/
def Driver.Call.ofBuild (answer : Except Error α) : Call :=
  .build (answer.map fun _ => ())

/-- What an analysis knows, with the calls that were made so far, in order. -/
structure Recorded (σ : Type) where
  state : σ
  calls : List Call := []

namespace Driver

/-- Let an analysis take a step, and add a call to the list. -/
def record (call : Except Error α → Call) (action : EStateM Error σ α) :
    EStateM Error (Recorded σ) α := fun before =>
  match action before.state with
  | .ok value state => .ok value { state, calls := before.calls ++ [call (.ok value)] }
  | .error error state => .error error { state, calls := before.calls ++ [call (.error error)] }

/-- The same driver, with a list of its calls. -/
def recorded (driver : Driver σ) : Driver (Recorded σ) where
  Problem := driver.Problem
  prepare := record .prepare driver.prepare
  build := record .ofBuild driver.build
  solve problem := record .solve (driver.solve problem)
  isFixed results := record (.isFixed results) (driver.isFixed results)
  context recorded := driver.context recorded.state

/-- A step that succeeds is recorded. -/
theorem record_ok (call : Except Error α → Call) {action : EStateM Error σ α} {value : α}
    {before after : σ} (haction : action before = .ok value after) (calls : List Call) :
    record call action { state := before, calls } =
      .ok value { state := after, calls := calls ++ [call (.ok value)] } := by
  simp only [record, haction]

/-- A step that fails is recorded too. -/
theorem record_error (call : Except Error α → Call) {action : EStateM Error σ α} {error : Error}
    {before after : σ} (haction : action before = .error error after) (calls : List Call) :
    record call action { state := before, calls } =
      .error error { state := after, calls := calls ++ [call (.error error)] } := by
  simp only [record, haction]

end Driver

namespace Run

/-- A run without the list of its calls. -/
def plain (run : Run (Recorded σ)) : Run σ where
  phase := run.phase
  published := run.published
  knowledge := run.knowledge.state

/-! ## One iteration -/

/-- The calls that gather the facts of an iteration, when all of them succeed. -/
def gathered : List Call :=
  [.prepare (.ok ()), .build (.ok ()), .solve (.ok ())]

/-- The calls of an iteration that asks whether it is fixed. -/
def asked (results : Results) (answer : Except Error Bool) : List Call :=
  gathered ++ [.isFixed results answer]

/-- A driver gathers the facts of an iteration. -/
inductive Gathers (driver : Driver σ) (before after : σ) : Prop where
  | intro (prepared built problem) : driver.prepare before = .ok () prepared →
      driver.build prepared = .ok problem built → driver.solve problem built = .ok () after →
      Gathers driver before after

/-- `Attempt driver settings iteration before calls published answer after` says how an iteration
goes that begins at `before`: the calls it makes, the results it publishes, its answer, and where
the analysis is after it. -/
inductive Attempt (driver : Driver σ) (settings : AnalysisSettings) (iteration : Nat) (before : σ) :
    List Call → List Results → Except Error (Results × Bool) → σ → Prop where
  | prepareFails (error after) : driver.prepare before = .error error after →
      Attempt driver settings iteration before [.prepare (.error error)] [] (.error error) after
  | buildFails (error prepared after) : driver.prepare before = .ok () prepared →
      driver.build prepared = .error error after →
      Attempt driver settings iteration before [.prepare (.ok ()), .build (.error error)] []
        (.error error) after
  | solveFails (error prepared built problem after) : driver.prepare before = .ok () prepared →
      driver.build prepared = .ok problem built → driver.solve problem built = .error error after →
      Attempt driver settings iteration before
        [.prepare (.ok ()), .build (.ok ()), .solve (.error error)] [] (.error error) after
  | resolveFails (broken after) : Gathers driver before after →
      (driver.context after).resolveTracked settings.resolver iteration = .error broken →
      Attempt driver settings iteration before gathered [] (.error (.violation broken)) after
  | checkFails (error results solved after) : Gathers driver before solved →
      (driver.context solved).resolveTracked settings.resolver iteration = .ok results →
      settings.iterative = true → driver.isFixed results solved = .error error after →
      Attempt driver settings iteration before (asked results (.error error)) [results]
        (.error error) after
  | checked (fixed results solved after) : Gathers driver before solved →
      (driver.context solved).resolveTracked settings.resolver iteration = .ok results →
      settings.iterative = true → driver.isFixed results solved = .ok fixed after →
      Attempt driver settings iteration before (asked results (.ok fixed)) [results]
        (.ok (results, fixed)) after
  | unchecked (results after) : Gathers driver before after →
      (driver.context after).resolveTracked settings.resolver iteration = .ok results →
      settings.iterative = false →
      Attempt driver settings iteration before gathered [results] (.ok (results, true)) after

variable {driver : Driver σ} {settings : AnalysisSettings} {iteration : Nat} {before after : σ}
  {calls : List Call} {published : List Results} {answer : Except Error (Results × Bool)}

/-- Every iteration goes in one of the ways. -/
theorem exists_attempt (driver : Driver σ) (settings : AnalysisSettings) (iteration : Nat)
    (before : σ) :
    ∃ calls published answer after,
      Attempt driver settings iteration before calls published answer after := by
  cases hprepare : driver.prepare before with
  | error error after => exact ⟨_, _, _, _, .prepareFails error after hprepare⟩
  | ok _ prepared =>
      cases hbuild : driver.build prepared with
      | error error after => exact ⟨_, _, _, _, .buildFails error prepared after hprepare hbuild⟩
      | ok problem built =>
          cases hsolve : driver.solve problem built with
          | error error after =>
              exact ⟨_, _, _, _, .solveFails error prepared built problem after hprepare hbuild
                hsolve⟩
          | ok _ solved =>
              have hgathers : Gathers driver before solved :=
                .intro prepared built problem hprepare hbuild hsolve
              cases hresolve :
                  (driver.context solved).resolveTracked settings.resolver iteration with
              | error broken => exact ⟨_, _, _, _, .resolveFails broken solved hgathers hresolve⟩
              | ok results =>
                  cases hiterative : settings.iterative with
                  | false =>
                      exact ⟨_, _, _, _, .unchecked results solved hgathers hresolve hiterative⟩
                  | true =>
                      cases hfixed : driver.isFixed results solved with
                      | error error after =>
                          exact ⟨_, _, _, _, .checkFails error results solved after hgathers
                            hresolve hiterative hfixed⟩
                      | ok fixed after =>
                          exact ⟨_, _, _, _, .checked fixed results solved after hgathers hresolve
                            hiterative hfixed⟩

/-- A recording driver gathers the same facts. -/
theorem Gathers.recorded (hgathers : Gathers driver before after) (calls : List Call) :
    Gathers driver.recorded { state := before, calls }
      { state := after, calls := calls ++ gathered } := by
  obtain ⟨prepared, built, problem, hprepare, hbuild, hsolve⟩ := hgathers
  rw [show calls ++ gathered = calls ++ [.prepare (.ok ())] ++ [.build (.ok ())] ++
    [.solve (.ok ())] by simp [gathered]]
  exact .intro _ _ _ (Driver.record_ok .prepare hprepare _) (Driver.record_ok .ofBuild hbuild _)
    (Driver.record_ok .solve hsolve _)

/-- With a recording driver an iteration goes in the same way, and its calls are added to the list.
-/
theorem Attempt.recorded
    (hattempt : Attempt driver settings iteration before calls published answer after)
    (earlier : List Call) :
    Attempt driver.recorded settings iteration { state := before, calls := earlier } calls published
      answer { state := after, calls := earlier ++ calls } := by
  cases hattempt with
  | prepareFails error after hprepare =>
      exact .prepareFails error _ (Driver.record_error .prepare hprepare _)
  | buildFails error prepared after hprepare hbuild =>
      rw [List.append_cons]
      exact .buildFails error _ _ (Driver.record_ok .prepare hprepare _)
        (Driver.record_error .ofBuild hbuild _)
  | solveFails error prepared built problem after hprepare hbuild hsolve =>
      rw [List.append_cons, List.append_cons]
      exact .solveFails error _ _ _ _ (Driver.record_ok .prepare hprepare _)
        (Driver.record_ok .ofBuild hbuild _) (Driver.record_error .solve hsolve _)
  | resolveFails broken after hgathers hresolve =>
      exact .resolveFails broken _ (hgathers.recorded earlier) hresolve
  | checkFails error results solved after hgathers hresolve hiterative hfixed =>
      rw [asked, ← List.append_assoc]
      exact .checkFails error results _ _ (hgathers.recorded earlier) hresolve hiterative
        (Driver.record_error (.isFixed results) hfixed _)
  | checked fixed results solved after hgathers hresolve hiterative hfixed =>
      rw [asked, ← List.append_assoc]
      exact .checked fixed results _ _ (hgathers.recorded earlier) hresolve hiterative
        (Driver.record_ok (.isFixed results) hfixed _)
  | unchecked results after hgathers hresolve hiterative =>
      exact .unchecked results _ (hgathers.recorded earlier) hresolve hiterative

/-! ## What an iteration does is an attempt -/

/-- After a step that succeeds an iteration goes on. -/
theorem advance_bind_ok {action : EStateM Error σ α} {value : α} {phase : Phase}
    (haction : action before = .ok value after) (next : α → EStateM Error (Run σ) β) :
    (advance action >>= next) { phase, published, knowledge := before } =
      next value { phase, published, knowledge := after } := by
  simp only [bind, EStateM.bind, advance, haction]

/-- After a step that fails an iteration is over. -/
theorem advance_bind_error {action : EStateM Error σ α} {error : Error} {phase : Phase}
    (haction : action before = .error error after) (next : α → EStateM Error (Run σ) β) :
    (advance action >>= next) { phase, published, knowledge := before } =
      .error error { phase, published, knowledge := after } := by
  simp only [bind, EStateM.bind, advance, haction]

/-- The part of an iteration after its facts are gathered. -/
def conclude (driver : Driver σ) (settings : AnalysisSettings) (iteration : Nat) :
    EStateM Error (Run σ) (Results × Bool) := do
  let run ← get
  match (driver.context run.knowledge).resolveTracked settings.resolver iteration with
  | .error broken => throw (.violation broken)
  | .ok results =>
      modify fun run => { run with published := run.published ++ [results] }
      let fixed ← if settings.iterative then advance (driver.isFixed results) else pure true
      pure (results, fixed)

/-- An iteration gathers facts and concludes. -/
theorem iterate_eq (driver : Driver σ) (settings : AnalysisSettings) (iteration : Nat)
    (run : Run σ) :
    iterate driver settings iteration run =
      (do
        advance driver.prepare
        let problem ← advance driver.build
        advance (driver.solve problem)
        conclude driver settings iteration : EStateM Error (Run σ) (Results × Bool))
      { phase := .iterating iteration, published := run.published, knowledge := run.knowledge } :=
  rfl

/-- An iteration whose facts are gathered concludes. -/
theorem Gathers.iterate {run : Run σ} (hgathers : Gathers driver run.knowledge after) :
    Run.iterate driver settings iteration run = conclude driver settings iteration
      { phase := .iterating iteration, published := run.published, knowledge := after } := by
  obtain ⟨prepared, built, problem, hprepare, hbuild, hsolve⟩ := hgathers
  rw [iterate_eq, advance_bind_ok hprepare, advance_bind_ok hbuild, advance_bind_ok hsolve]

/-- An iteration is over when a point cannot be resolved. -/
theorem conclude_of_error {phase : Phase} {broken : Violation}
    (hresolve : (driver.context after).resolveTracked settings.resolver iteration =
      .error broken) :
    conclude driver settings iteration { phase, published, knowledge := after } =
      .error (.violation broken) { phase, published, knowledge := after } := by
  show (match (driver.context after).resolveTracked settings.resolver iteration with
    | .error broken => throw (.violation broken)
    | .ok results => _ : EStateM Error (Run σ) (Results × Bool)) _ = _
  rw [hresolve]
  rfl

/-- When all points are resolved the results are published before anything else. -/
theorem conclude_of_ok {phase : Phase} {results : Results}
    (hresolve : (driver.context after).resolveTracked settings.resolver iteration = .ok results) :
    conclude driver settings iteration { phase, published, knowledge := after } =
      (do
        let fixed ← if settings.iterative then advance (driver.isFixed results) else pure true
        pure (results, fixed) : EStateM Error (Run σ) (Results × Bool))
      { phase, published := published ++ [results], knowledge := after } := by
  show (match (driver.context after).resolveTracked settings.resolver iteration with
    | .error broken => throw (.violation broken)
    | .ok results => _ : EStateM Error (Run σ) (Results × Bool)) _ = _
  rw [hresolve]
  rfl

/-- A run that stops with an answer. -/
def answering (run : Run σ) : Except Error α → EStateM.Result Error (Run σ) α
  | .ok value => .ok value run
  | .error error => .error error run

/-- An iteration does what the attempt says. -/
theorem Attempt.iterate {run : Run σ}
    (hattempt : Attempt driver settings iteration run.knowledge calls published answer after) :
    Run.iterate driver settings iteration run =
      answering
        { phase := .iterating iteration
          published := run.published ++ published
          knowledge := after } answer := by
  cases hattempt with
  | prepareFails error after hprepare =>
      rw [List.append_nil, iterate_eq, advance_bind_error hprepare, answering]
  | buildFails error prepared after hprepare hbuild =>
      rw [List.append_nil, iterate_eq, advance_bind_ok hprepare, advance_bind_error hbuild,
        answering]
  | solveFails error prepared built problem after hprepare hbuild hsolve =>
      rw [List.append_nil, iterate_eq, advance_bind_ok hprepare, advance_bind_ok hbuild,
        advance_bind_error hsolve, answering]
  | resolveFails broken after hgathers hresolve =>
      rw [List.append_nil, hgathers.iterate, conclude_of_error hresolve, answering]
  | checkFails error results solved after hgathers hresolve hiterative hfixed =>
      rw [hgathers.iterate, conclude_of_ok hresolve, if_pos hiterative, advance_bind_error hfixed,
        answering]
  | checked fixed results solved after hgathers hresolve hiterative hfixed =>
      rw [hgathers.iterate, conclude_of_ok hresolve, if_pos hiterative, advance_bind_ok hfixed]
      rfl
  | unchecked results after hgathers hresolve hiterative =>
      rw [hgathers.iterate, conclude_of_ok hresolve, if_neg (by simp [hiterative])]
      rfl

/-- A recorded run after an iteration that has made some calls and published some results. -/
def proceed (run : Run (Recorded σ)) (iteration : Nat) (calls : List Call)
    (published : List Results) (state : σ) : Run (Recorded σ) where
  phase := .iterating iteration
  published := run.published ++ published
  knowledge := { state, calls := run.knowledge.calls ++ calls }

/-- With a recording driver and without one, an iteration does what the attempt says. -/
theorem Attempt.iterate_recorded {run : Run (Recorded σ)}
    (hattempt : Attempt driver settings iteration run.knowledge.state calls published answer
      after) :
    Run.iterate driver.recorded settings iteration run =
        answering (run.proceed iteration calls published after) answer ∧
      Run.iterate driver settings iteration run.plain =
        answering (run.proceed iteration calls published after).plain answer :=
  ⟨(hattempt.recorded run.knowledge.calls).iterate, Attempt.iterate hattempt⟩

/-- An iteration that succeeds publishes its results. It asks whether it is fixed if the run is
iterative, and goes by the answer. -/
theorem Attempt.succeeded {results : Results} {fixed : Bool}
    (hattempt : Attempt driver settings iteration before calls published (.ok (results, fixed))
      after) :
    published = [results] ∧ results.iteration = iteration ∧
      ∃ last : Option Bool,
        calls = gathered ++ (last.map fun answer => Call.isFixed results (.ok answer)).toList ∧
        (last = none ↔ settings.iterative = false) ∧
        (fixed = true ↔ settings.iterative = false ∨ last = some true) ∧
        (fixed = false ↔ last = some false) := by
  cases hattempt with
  | checked fixed results solved after _ hresolve hiterative =>
      obtain ⟨hnumber, _⟩ := Context.resolved_at_of_resolve_tracked hresolve
      exact ⟨rfl, hnumber, some fixed, rfl, by simp [hiterative], by simp [hiterative], by simp⟩
  | unchecked results after _ hresolve hiterative =>
      obtain ⟨hnumber, _⟩ := Context.resolved_at_of_resolve_tracked hresolve
      exact ⟨rfl, hnumber, none, rfl, by simp [hiterative], by simp [hiterative], by simp⟩

/-! ## Whole runs -/

/-- The time is up when some iterations are done. -/
def Late (settings : AnalysisSettings) (clock : Nat → Id Nat) (done : Nat) : Prop :=
  settings.timeoutSeconds.any (fun limit => limit ≤ (clock done).run) = true

/-- A recorded run that is about to begin an iteration. Each iteration before it has published its
results and was told that it is not fixed, and the time was not up after it. -/
structure Underway (settings : AnalysisSettings) (clock : Nat → Id Nat) (iteration : Nat)
    (run : Run (Recorded σ)) : Prop where
  numbered : run.published.map (·.iteration) = List.range iteration
  calls : run.knowledge.calls = run.published.flatMap fun results => asked results (.ok false)
  inTime : ∀ done, 0 < done → done ≤ iteration → ¬ Late settings clock done

/-- A recorded run that has ended with an outcome. All iterations but the last were told that they
are not fixed; `last` is what the last one was told, if it has asked. -/
structure Completed (settings : AnalysisSettings) (clock : Nat → Id Nat) (outcome : Outcome)
    (earlier : List Results) (last : Option Bool) (final : Run (Recorded σ)) : Prop where
  published : final.published = earlier ++ [outcome.results]
  numbered : final.published.map (·.iteration) = List.range outcome.iterations
  pos : 1 ≤ outcome.iterations
  le_limit : outcome.iterations ≤ max 1 settings.maxIterations
  calls : final.knowledge.calls =
    (earlier.flatMap fun results => asked results (.ok false)) ++ gathered ++
      (last.map fun answer => Call.isFixed outcome.results (.ok answer)).toList
  last_eq_none : last = none ↔ settings.iterative = false
  converged : outcome.convergence = .converged ↔ settings.iterative = false ∨ last = some true
  capReached : outcome.convergence = .iterationCapReached ↔
    last = some false ∧ outcome.iterations = max 1 settings.maxIterations
  timedOut : outcome.convergence = .timedOut ↔
    last = some false ∧ outcome.iterations ≠ max 1 settings.maxIterations
  late : outcome.convergence = .timedOut → Late settings clock outcome.iterations
  inTime : ∀ done, 0 < done → done < outcome.iterations → ¬ Late settings clock done
  phase : final.phase = .ended outcome.convergence

/-- The calls of an iteration that fails before its results are published. When a point cannot be
resolved, the driver was called successfully and is in the given state. -/
inductive FailsEarly (driver : Driver σ) (settings : AnalysisSettings) (iteration : Nat)
    (state : σ) : Error → List Call → Prop where
  | prepare (error) :
      FailsEarly driver settings iteration state error [.prepare (.error error)]
  | build (error) :
      FailsEarly driver settings iteration state error [.prepare (.ok ()), .build (.error error)]
  | solve (error) :
      FailsEarly driver settings iteration state error
        [.prepare (.ok ()), .build (.ok ()), .solve (.error error)]
  | resolve (broken) :
      (driver.context state).resolveTracked settings.resolver iteration = .error broken →
      FailsEarly driver settings iteration state (.violation broken) gathered

/-- A recorded run that has ended with an error. All iterations before the last were told that they
are not fixed. The last one has failed before its results were published, or after that, when it
asked whether it is fixed. -/
inductive Aborted (driver : Driver σ) (settings : AnalysisSettings) (error : Error)
    (final : Run (Recorded σ)) : Prop where
  | unpublished (iteration : Nat) (calls : List Call) : final.phase = .iterating iteration →
      final.published.map (·.iteration) = List.range iteration →
      final.knowledge.calls =
        (final.published.flatMap fun results => asked results (.ok false)) ++ calls →
      FailsEarly driver settings iteration final.knowledge.state error calls →
      Aborted driver settings error final
  | published (iteration : Nat) (earlier : List Results) (results : Results) :
      final.phase = .iterating iteration →
      final.published = earlier ++ [results] →
      final.published.map (·.iteration) = List.range (iteration + 1) →
      final.knowledge.calls =
        (earlier.flatMap fun results => asked results (.ok false)) ++
          asked results (.error error) →
      Aborted driver settings error final

/-- A recorded run has ended as it should. -/
def KeepsProtocol (driver : Driver σ) (settings : AnalysisSettings) (clock : Nat → Id Nat)
    (final : Run (Recorded σ)) : Except Error Outcome → Prop
  | .ok outcome => ∃ earlier last, Completed settings clock outcome earlier last final
  | .error error => Aborted driver settings error final

namespace Underway

variable {clock : Nat → Id Nat} {run : Run (Recorded σ)} {results : Results} {fixed : Bool}
  {state : σ}

/-- The results of the next iteration have the next number. -/
theorem numbered_concat (hrun : Underway settings clock iteration run)
    (hresults : results.iteration = iteration) :
    (run.published ++ [results]).map (·.iteration) = List.range (iteration + 1) := by
  rw [List.map_append, hrun.numbered, List.range_succ, List.map_singleton, hresults]

/-- An iteration that is not fixed leads to the next one. -/
theorem next (hrun : Underway settings clock iteration run)
    (hattempt : Attempt driver settings iteration run.knowledge.state calls published
      (.ok (results, false)) state)
    (htime : ¬ Late settings clock (iteration + 1)) :
    Underway settings clock (iteration + 1) (run.proceed iteration calls published state) := by
  obtain ⟨rfl, hresults, last, rfl, _, _, hlast⟩ := hattempt.succeeded
  cases hlast.mp rfl
  refine ⟨hrun.numbered_concat hresults, ?_, ?_⟩
  · show run.knowledge.calls ++ asked results (.ok false) = _
    rw [hrun.calls]
    simp [proceed]
  · intro done hpos hle
    rcases Nat.lt_or_ge iteration done with hlt | hge
    · rwa [show done = iteration + 1 by omega]
    · exact hrun.inTime done hpos hge

/-- An iteration after which the run stops completes it. -/
theorem complete (hrun : Underway settings clock iteration run)
    (hattempt : Attempt driver settings iteration run.knowledge.state calls published
      (.ok (results, fixed)) state)
    (hle : iteration + 1 ≤ max 1 settings.maxIterations) (convergence : Convergence)
    (hconverged : convergence = .converged ↔ fixed = true)
    (hcap : convergence = .iterationCapReached ↔
      fixed = false ∧ iteration + 1 = max 1 settings.maxIterations)
    (htime : convergence = .timedOut ↔
      fixed = false ∧ iteration + 1 ≠ max 1 settings.maxIterations)
    (hlate : convergence = .timedOut → Late settings clock (iteration + 1)) :
    ∃ earlier last, Completed settings clock
      { convergence, iterations := iteration + 1, results } earlier last
      { run.proceed iteration calls published state with phase := .ended convergence } := by
  obtain ⟨rfl, hresults, last, rfl, hnone, htrue, hfalse⟩ := hattempt.succeeded
  refine ⟨run.published, last, rfl, hrun.numbered_concat hresults, Nat.succ_pos _, hle, ?_, hnone,
    hconverged.trans htrue, hcap.trans (and_congr_left fun _ => hfalse),
    htime.trans (and_congr_left fun _ => hfalse), hlate, ?_, rfl⟩
  · show run.knowledge.calls ++ _ = _
    rw [hrun.calls, List.append_assoc]
  · exact fun done hpos hlt => hrun.inTime done hpos (Nat.le_of_lt_succ hlt)

/-- An iteration that fails aborts the run. -/
theorem abort (hrun : Underway settings clock iteration run) {error : Error}
    (hattempt : Attempt driver settings iteration run.knowledge.state calls published
      (.error error) state) :
    Aborted driver settings error (run.proceed iteration calls published state) := by
  have hearly : FailsEarly driver settings iteration state error calls →
      Aborted driver settings error (run.proceed iteration calls [] state) := by
    intro hfails
    refine .unpublished iteration calls rfl ?_ ?_ hfails
    · simpa [proceed] using hrun.numbered
    · simp [proceed, hrun.calls]
  cases hattempt with
  | prepareFails => exact hearly (.prepare error)
  | buildFails => exact hearly (.build error)
  | solveFails => exact hearly (.solve error)
  | resolveFails broken _ _ hresolve => exact hearly (.resolve broken hresolve)
  | checkFails _ results _ _ _ hresolve =>
      obtain ⟨hresults, _⟩ := Context.resolved_at_of_resolve_tracked hresolve
      refine .published iteration run.published results rfl rfl (hrun.numbered_concat hresults) ?_
      show run.knowledge.calls ++ _ = _
      rw [hrun.calls]

end Underway

/-- With a recording driver and without one, the loop ends in the same way, and as it should. -/
theorem loop_keeps_protocol (driver : Driver σ) (settings : AnalysisSettings)
    (clock : Nat → Id Nat) (spare iteration : Nat) (run : Run (Recorded σ))
    (hrun : Underway settings clock iteration run)
    (hlimit : iteration + 1 + spare = max 1 settings.maxIterations) :
    ∃ answer final,
      loop driver.recorded settings clock spare iteration run = (answer, final) ∧
      loop driver settings clock spare iteration run.plain = (answer, final.plain) ∧
      KeepsProtocol driver settings clock final answer := by
  obtain ⟨calls, published, answer, state, hattempt⟩ :=
    exists_attempt driver settings iteration run.knowledge.state
  obtain ⟨hrecorded, hplain⟩ := hattempt.iterate_recorded
  cases answer with
  | error error =>
      exact ⟨_, _, loop_of_error clock spare hrecorded, loop_of_error clock spare hplain,
        hrun.abort hattempt⟩
  | ok found =>
      obtain ⟨results, fixed⟩ := found
      cases fixed with
      | true =>
          exact ⟨_, _, loop_of_fixed clock spare hrecorded, loop_of_fixed clock spare hplain,
            hrun.complete hattempt (by omega) .converged (by simp) (by simp) (by simp) (by simp)⟩
      | false =>
          cases spare with
          | zero =>
              exact ⟨_, _, loop_of_last clock hrecorded, loop_of_last clock hplain,
                hrun.complete hattempt (by omega) .iterationCapReached (by simp)
                  (by simp [← hlimit]) (by simp [← hlimit]) (by simp)⟩
          | succ spare =>
              rw [loop_of_spare clock spare hrecorded, loop_of_spare clock spare hplain]
              by_cases hlate :
                  settings.timeoutSeconds.any (fun limit => limit ≤ (clock (iteration + 1)).run)
              · rw [if_pos hlate, if_pos hlate]
                exact ⟨_, _, rfl, rfl,
                  hrun.complete hattempt (by omega) .timedOut (by simp)
                    (by simp; omega) (by simp; omega) fun _ => hlate⟩
              · rw [if_neg hlate, if_neg hlate]
                exact loop_keeps_protocol driver settings clock spare (iteration + 1) _
                  (hrun.next hattempt hlate) (by omega)

/-- Whatever a driver answers and whatever the clock says, a run that records its calls is the run
itself, and it keeps the protocol. A run that succeeds has published the results of its iterations
in order and ends for the reason that its outcome gives; a run that fails stops at the call or the
point that has failed. -/
theorem start_keeps_protocol (driver : Driver σ) (settings : AnalysisSettings)
    (clock : Nat → Id Nat) (knowledge : σ) :
    ∃ answer final,
      start driver.recorded settings clock { state := knowledge } = (answer, final) ∧
      start driver settings clock knowledge = (answer, final.plain) ∧
      KeepsProtocol driver settings clock final answer := by
  refine loop_keeps_protocol driver settings clock (settings.maxIterations - 1) 0
    { knowledge := { state := knowledge } } ⟨rfl, rfl, ?_⟩ (by omega)
  intro done hpos hle
  omega

end Run

end StringReach
