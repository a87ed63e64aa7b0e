import StringReach.Proofs.Justification
import StringReach.Proofs.Meaning
import StringReach.Proofs.Tracking
import StringReach.Proofs.Warnings
import StringReach.Proofs.WildcardsOnly

/-!
# The order of a program

The order in which the methods and the entry points of a program are listed decides in which boxes
its terms lie, but neither what the boxes mean nor which of them are resolved. Hence two analyses
of one program in different orders learn the same edges, iteration by iteration, and report the
same but for their warnings, or both fail at the same string, which the engine refuses
(`analysis_order_independent`). There are programs of the second kind (`crowded_text_refused`).
-/

namespace StringReach

/-! ## Two contexts with the facts of the same methods -/

/-- Resolutions with the same strings that were found in the same way differ in the warnings only.
-/
theorem Resolution.ext_without_warnings {a b : Resolution}
    (hlanguage : a.solution.language = b.solution.language) (hrecursive : a.recursive = b.recursive)
    (hstrategy : a.strategy = b.strategy) : a.withoutWarnings = b.withoutWarnings := by
  have hsolution : { a.solution with warnings := 0 } = { b.solution with warnings := 0 } :=
    Solution.ext_language hlanguage rfl
  rw [withoutWarnings, withoutWarnings, hsolution, hrecursive, hstrategy]

/-- Two boxes that have one label, wherever they lie, have the same resolution but for the
warnings. -/
theorem Layout.resolution_eq {ι : Type} [DecidableEq ι] {plan : ι → Outline}
    {labels labels' : List (Label ι)} {arena arena' : Arena} {fields fields' : Fields}
    {label : Label ι} {h h' : Handle} {settings : ResolverSettings}
    {resolution resolution' : Resolution} (hlayout : Layout plan labels arena fields)
    (hlayout' : Layout plan labels' arena' fields') (hproper : label.Proper)
    (hlabel : labels[h]? = some label) (hlabel' : labels'[h']? = some label)
    (hresolve : arena.resolve settings h = .ok resolution)
    (hresolve' : arena'.resolve settings h' = .ok resolution') :
    resolution.withoutWarnings = resolution'.withoutWarnings := by
  have hresolved := Arena.resolved_of_resolve hresolve
  have hresolved' := Arena.resolved_of_resolve hresolve'
  have hlanguage : resolution.solution.language = resolution'.solution.language := by
    ext text
    rw [hlayout.unfolds_iff_spells hresolved.unfolds (.direct hlabel .nil) hproper,
      hlayout'.unfolds_iff_spells hresolved'.unfolds (.direct hlabel' .nil) hproper]
  have hends : resolution.recursive = false ↔ resolution'.recursive = false := by
    rw [hresolved.recursive, hresolved'.recursive, hlayout.grounded_iff_ends hlabel hproper,
      hlayout'.grounded_iff_ends hlabel' hproper]
  have hrecursive : resolution.recursive = resolution'.recursive := by
    rwa [← Bool.not_eq_true, ← Bool.not_eq_true, not_iff_not, ← Bool.eq_iff_iff] at hends
  have hstrategy : resolution.strategy = resolution'.strategy := by
    rw [hresolved.strategy, hresolved'.strategy, hrecursive]
  exact Resolution.ext_without_warnings hlanguage hrecursive hstrategy

/-- What the tracked points of a context resolve to, but for the warnings. -/
def Context.answers (context : Context) (settings : ResolverSettings) :
    Std.ExtTreeMap Point (Option Resolution) :=
  context.tracked.map fun _ box =>
    (context.arena.resolve settings box).toOption.map (·.withoutWarnings)

/-- The results of a context list its answers. -/
theorem Context.points_without_warnings {context : Context} {settings : ResolverSettings}
    {iteration : Nat} {results : Results}
    (hresolve : context.resolveTracked settings iteration = .ok results) :
    results.points.map (·.withoutWarnings) =
      (context.answers settings).toList.filterMap fun answer =>
        answer.2.map fun resolution => { point := answer.1, resolution } := by
  obtain ⟨_, hpoints⟩ := resolved_at_of_resolve_tracked hresolve
  rw [answers, Std.ExtTreeMap.toList_map, List.filterMap_map]
  generalize context.tracked.toList = tracked at hpoints ⊢
  generalize results.points = points at hpoints ⊢
  induction hpoints with
  | nil => rfl
  | @cons tracked entry _ _ hentry _ ih =>
      obtain ⟨hpoint, hresolution⟩ := hentry
      have hanswer : ((context.arena.resolve settings tracked.2).toOption.map
          (·.withoutWarnings)) = some entry.resolution.withoutWarnings := by
        rw [hresolution]
        rfl
      rw [List.map_cons, List.filterMap_cons, Function.comp_apply, hanswer, ih, ← hpoint]
      rfl

/-- Contexts with the same answers have the same results but for the warnings. -/
theorem Context.results_eq {context context' : Context} {settings : ResolverSettings}
    {iteration : Nat} {results results' : Results}
    (hanswers : context.answers settings = context'.answers settings)
    (hresolve : context.resolveTracked settings iteration = .ok results)
    (hresolve' : context'.resolveTracked settings iteration = .ok results') :
    results.withoutWarnings = results'.withoutWarnings := by
  rw [Results.withoutWarnings, Results.withoutWarnings, points_without_warnings hresolve,
    points_without_warnings hresolve', hanswers, (resolved_at_of_resolve_tracked hresolve).1,
    (resolved_at_of_resolve_tracked hresolve').1]

namespace Collected

variable {methods methods' : List Method} {labels labels' : List (Label Method)}
  {context context' : Context}

/-- The reflective calls of a context depend on its methods only. -/
theorem sites_eq (hcollected : Collected methods labels context)
    (hcollected' : Collected methods' labels' context')
    (hsame : ∀ method, method ∈ methods ↔ method ∈ methods') : context.sites = context'.sites := by
  refine Std.ExtTreeMap.ext_getElem? fun point => Option.ext fun kind => ?_
  rw [hcollected.sites, hcollected'.sites]
  simp only [hsame]

/-- A point that one of two contexts tracks has the same answer in the other. -/
theorem answer_eq (hcollected : Collected methods labels context)
    (hcollected' : Collected methods' labels' context')
    (hsame : ∀ method, method ∈ methods ↔ method ∈ methods') {settings : ResolverSettings}
    (hcalls : settings.followCalls = false) {point : Point} {box : Handle}
    (htracked : context.tracked[point]? = some box) :
    (context.answers settings)[point]? = (context'.answers settings)[point]? := by
  have hplan : planOf methods = planOf methods' := by
    funext method
    simp only [planOf, hsame]
  obtain ⟨method, hmethod, index, hindex, hlabel⟩ := hcollected.tracked htracked
  obtain ⟨box', htracked', hlabel'⟩ := hcollected'.tracks ((hsame method).mp hmethod) hindex
  obtain ⟨resolution, hresolve⟩ :=
    Arena.exists_resolve (hcollected.layout.intact hlabel) hcalls
  obtain ⟨resolution', hresolve'⟩ :=
    Arena.exists_resolve (hcollected'.layout.intact hlabel') hcalls
  have heq := hcollected.layout.resolution_eq (hplan ▸ hcollected'.layout)
    (by simp [Label.Proper]) hlabel hlabel' hresolve hresolve'
  rw [Context.answers, Context.answers, Std.ExtTreeMap.getElem?_map, Std.ExtTreeMap.getElem?_map,
    htracked, htracked', Option.map_some, Option.map_some, hresolve, hresolve']
  simp only [Except.toOption, Option.map_some, heq]

/-- The answers of a context depend on its methods only. -/
theorem answers_eq (hcollected : Collected methods labels context)
    (hcollected' : Collected methods' labels' context')
    (hsame : ∀ method, method ∈ methods ↔ method ∈ methods') {settings : ResolverSettings}
    (hcalls : settings.followCalls = false) :
    context.answers settings = context'.answers settings := by
  refine Std.ExtTreeMap.ext_getElem? fun point => ?_
  cases htracked : context.tracked[point]? with
  | some box => exact hcollected.answer_eq hcollected' hsame hcalls htracked
  | none =>
      cases htracked' : context'.tracked[point]? with
      | some box =>
          exact (hcollected'.answer_eq hcollected (fun method => (hsame method).symm) hcalls
            htracked').symm
      | none =>
          rw [Context.answers, Context.answers, Std.ExtTreeMap.getElem?_map,
            Std.ExtTreeMap.getElem?_map, htracked, htracked']
          rfl

end Collected

/-! ## Two runs side by side -/

/-- Two analyses know the same edges and the same reflective calls. -/
structure Knowledge.Agrees (knowledge knowledge' : Knowledge) : Prop where
  discovered : knowledge.discovered = knowledge'.discovered
  sites : knowledge.context.sites = knowledge'.context.sites

/-- Two runs end with the same outcome, but for the warnings, and know the same, or they fail with
the same error. -/
inductive Run.EndAlike :
    Except Error Outcome × Run Knowledge → Except Error Outcome × Run Knowledge → Prop where
  | finished (outcome outcome' final final') :
      outcome.withoutWarnings = outcome'.withoutWarnings →
      final.knowledge.Agrees final'.knowledge →
      EndAlike (.ok outcome, final) (.ok outcome', final')
  | failed (error final final') : EndAlike (.error error, final) (.error error, final')

/-- Runs that know the same and finish in the same way with the same results end alike. -/
theorem Run.end_alike_finish {run run' : Run Knowledge} {convergence : Convergence}
    {iterations : Nat} {results results' : Results}
    (hresults : results.withoutWarnings = results'.withoutWarnings)
    (hagrees : run.knowledge.Agrees run'.knowledge) :
    EndAlike (run.finish convergence iterations results)
      (run'.finish convergence iterations results') := by
  refine .finished _ _ _ _ ?_ hagrees
  rw [Outcome.withoutWarnings, Outcome.withoutWarnings, hresults]

namespace Program.Reordered

variable {program program' : Program} {engine : Engine} {settings : AnalysisSettings}
  {iteration : Nat} {context context' : Context} {results results' : Results}

/-- The same strings select the same methods in any order. -/
theorem mem_targets (horder : program.Reordered program') {site : Point} {kind : ReflectionKind}
    {targets targets' : List Method}
    (htargets : program.targetsOf engine results site kind = .ok targets)
    (htargets' : program'.targetsOf engine results site kind = .ok targets') {method : Method} :
    method ∈ targets ↔ method ∈ targets' := by
  obtain ⟨classes, members, hclasses, hmembers, rfl⟩ := targets_eq_ok_iff.mp htargets
  obtain ⟨classes', members', hclasses', hmembers', rfl⟩ := targets_eq_ok_iff.mp htargets'
  cases hclasses.symm.trans hclasses'
  cases hmembers.symm.trans hmembers'
  rw [List.mem_filter, List.mem_filter, horder.methods.mem_iff]

/-- Every edge that strings give in one order they give in the other. -/
theorem mem_of_mem_reflective_edges (horder : program.Reordered program')
    (hsites : context.sites = context'.sites) {found found' : List CallEdge}
    (hedges : program.reflectiveEdges engine context results = .ok found)
    (hedges' : program'.reflectiveEdges engine context' results = .ok found') {edge : CallEdge}
    (hedge : edge ∈ found) : edge ∈ found' := by
  obtain ⟨site, kind, hsite, targets, htargets, target, htarget, rfl⟩ :=
    (mem_reflective_edges hedges).mp hedge
  rw [hsites] at hsite
  obtain ⟨targets', htargets'⟩ := exists_targets_of_reflective_edges hedges' hsite
  exact (mem_reflective_edges hedges').mpr ⟨site, kind, hsite, targets', htargets', target,
    (horder.mem_targets htargets htargets').mp htarget, rfl⟩

/-- The same strings give the same edges in any order, or the engine refuses one of them in
both. -/
theorem learned_edges_alike (horder : program.Reordered program') (engine : Engine)
    (settings : AnalysisSettings) (hsites : context.sites = context'.sites)
    (hresults : results.withoutWarnings = results'.withoutWarnings) :
    (∃ found found', program.learnedEdges engine settings context results = .ok found ∧
      program'.learnedEdges engine settings context' results' = .ok found' ∧
      ∀ edge, edge ∈ found ↔ edge ∈ found') ∨
    ∃ error, program.learnedEdges engine settings context results = .error error ∧
      program'.learnedEdges engine settings context' results' = .error error := by
  rw [learnedEdges, learnedEdges]
  split
  · rw [← program.reflective_edges_without_warnings, ← program'.reflective_edges_without_warnings,
      ← hresults]
    cases hedges : program.reflectiveEdges engine context results.withoutWarnings with
    | error error => exact .inr ⟨error, rfl, (reflective_edges_error_congr hsites).mp hedges⟩
    | ok found =>
        cases hedges' : program'.reflectiveEdges engine context' results.withoutWarnings with
        | error error =>
            cases hedges.symm.trans ((reflective_edges_error_congr hsites).mpr hedges')
        | ok found' =>
            refine .inl ⟨found, found', rfl, rfl, fun edge => ⟨?_, ?_⟩⟩
            · exact horder.mem_of_mem_reflective_edges hsites hedges hedges'
            · exact horder.symm.mem_of_mem_reflective_edges hsites.symm hedges' hedges
  · exact .inl ⟨[], [], rfl, rfl, fun _ => Iff.rfl⟩

/-- From the same edges an iteration of either program succeeds and leads to the same, but for the
warnings, or both fail with the same error. -/
theorem iterate_alike (horder : program.Reordered program') (engine : Engine)
    (hnames : (program.methods.map (·.name)).Nodup) (hcalls : settings.followCalls = false)
    (iteration : Nat) {run run' : Run Knowledge}
    (hbefore : run.knowledge.discovered = run'.knowledge.discovered) :
    (∃ results results' fixed after after',
      Run.iterate (program.driver engine) settings iteration run = .ok (results, fixed) after ∧
      Run.iterate (program'.driver engine) settings iteration run' = .ok (results', fixed) after' ∧
      results.withoutWarnings = results'.withoutWarnings ∧
      after.knowledge.Agrees after'.knowledge) ∨
    ∃ error after after',
      Run.iterate (program.driver engine) settings iteration run = .error error after ∧
      Run.iterate (program'.driver engine) settings iteration run' = .error error after' := by
  obtain ⟨context, labels, hcollect, hcollected⟩ :=
    StringReach.exists_collected (program.nodup_reachable_methods run.knowledge.discovered)
  obtain ⟨context', labels', hcollect', hcollected'⟩ :=
    StringReach.exists_collected (program'.nodup_reachable_methods run'.knowledge.discovered)
  obtain ⟨results, hresolve⟩ := context.exists_resolve_tracked settings.resolver iteration
    (fun _ _ htracked => hcollected.intact.tracked htracked) hcalls
  obtain ⟨results', hresolve'⟩ := context'.exists_resolve_tracked settings.resolver iteration
    (fun _ _ htracked => hcollected'.intact.tracked htracked) hcalls
  have hsame : ∀ method, method ∈ program.reachableMethods run.knowledge.discovered ↔
      method ∈ program'.reachableMethods run'.knowledge.discovered := by
    intro method
    rw [← hbefore]
    exact horder.mem_reachable_methods hnames
  have hsites := hcollected.sites_eq hcollected' hsame
  have hresults := Context.results_eq (hcollected.answers_eq hcollected' hsame hcalls)
    hresolve hresolve'
  have hiterate := iterate_eq engine settings iteration hcollect
  have hiterate' := iterate_eq engine settings iteration hcollect'
  rcases horder.learned_edges_alike engine settings hsites hresults with
    ⟨found, found', hlearned, hlearned', hfound⟩ | ⟨error, hlearned, hlearned'⟩
  · simp only [hresolve, hlearned] at hiterate
    simp only [hresolve', hlearned'] at hiterate'
    have hdiscovered : run.knowledge.discovered.insertMany found =
        run'.knowledge.discovered.insertMany found' := by
      refine Std.ExtTreeSet.ext_mem fun edge => ?_
      rw [Std.ExtTreeSet.mem_insertMany_list, Std.ExtTreeSet.mem_insertMany_list,
        List.contains_iff_mem, List.contains_iff_mem, hbefore, hfound]
    rw [← hdiscovered, ← hbefore] at hiterate'
    exact .inl ⟨results, results', _, _, _, hiterate, hiterate', hresults, rfl, hsites⟩
  · simp only [hresolve, hlearned] at hiterate
    simp only [hresolve', hlearned'] at hiterate'
    exact .inr ⟨error, _, _, hiterate, hiterate'⟩

/-- From the same edges the loop ends alike for either program when there is no time budget. -/
theorem loop_end_alike (horder : program.Reordered program') (engine : Engine)
    (hnames : (program.methods.map (·.name)).Nodup) (hcalls : settings.followCalls = false)
    (htimeout : settings.timeoutSeconds = none) (clock clock' : Nat → Id Nat)
    (spare iteration : Nat) {run run' : Run Knowledge}
    (hbefore : run.knowledge.discovered = run'.knowledge.discovered) :
    Run.EndAlike (Run.loop (program.driver engine) settings clock spare iteration run)
      (Run.loop (program'.driver engine) settings clock' spare iteration run') := by
  induction spare generalizing iteration run run' with
  | zero =>
      rcases horder.iterate_alike engine hnames hcalls iteration hbefore with
        ⟨results, results', fixed, after, after', hiterate, hiterate', hresults, hagrees⟩ |
        ⟨error, after, after', hiterate, hiterate'⟩
      · cases fixed with
        | true =>
            rw [Run.loop_of_fixed clock 0 hiterate, Run.loop_of_fixed clock' 0 hiterate']
            exact Run.end_alike_finish hresults hagrees
        | false =>
            rw [Run.loop_of_last clock hiterate, Run.loop_of_last clock' hiterate']
            exact Run.end_alike_finish hresults hagrees
      · rw [Run.loop_of_error clock 0 hiterate, Run.loop_of_error clock' 0 hiterate']
        exact .failed error after after'
  | succ spare ih =>
      rcases horder.iterate_alike engine hnames hcalls iteration hbefore with
        ⟨results, results', fixed, after, after', hiterate, hiterate', hresults, hagrees⟩ |
        ⟨error, after, after', hiterate, hiterate'⟩
      · cases fixed with
        | true =>
            rw [Run.loop_of_fixed clock _ hiterate, Run.loop_of_fixed clock' _ hiterate']
            exact Run.end_alike_finish hresults hagrees
        | false =>
            -- Without a time budget the clocks are not looked at.
            rw [Run.loop_of_spare clock spare hiterate, Run.loop_of_spare clock' spare hiterate',
              htimeout]
            exact ih (iteration + 1) hagrees.discovered
      · rw [Run.loop_of_error clock _ hiterate, Run.loop_of_error clock' _ hiterate']
        exact .failed error after after'

end Program.Reordered

/-! ## Reports -/

/-- Analyses that know the same make the same report of the same outcome, but for the warnings. -/
theorem Outcome.report_eq {outcome outcome' : Outcome} {knowledge knowledge' : Knowledge}
    (houtcome : outcome.withoutWarnings = outcome'.withoutWarnings)
    (hagrees : knowledge.Agrees knowledge') :
    (outcome.report knowledge).withoutWarnings = (outcome'.report knowledge').withoutWarnings := by
  rw [report_without_warnings, report_without_warnings, houtcome, report, report, hagrees.sites,
    hagrees.discovered]

/-- When calls are not followed, an analysis with usable settings that gives no report fails at a
string that the engine refuses. -/
theorem Analyzer.refuses_of_report {analyzer : Analyzer} {engine : Engine} {clock : Nat → Id Nat}
    {program : Program} {error : Error}
    (hmax : analyzer.settings.analysis.maxIterations ≠ 0)
    (hcalls : analyzer.settings.analysis.followCalls = false)
    (hreport : (analyzer.analyze engine clock program).1.report = .error error) :
    ∃ source reason, error = .invalidPattern source reason ∧
      analyzer.Refuses engine program source reason := by
  rcases analyzer.analyze_outcome engine clock program hmax with
    ⟨outcome, final, _, hsuccess⟩ | ⟨other, final, last, begun, hbegun, hiterate, hfailure⟩
  · cases hreport.symm.trans hsuccess
  · cases hreport.symm.trans hfailure
    exact refuses_of_fails hcalls hbegun (Program.fails_of_iterate hiterate)

/-- The methods and the entry points of a program may be listed in any order: when no two methods
have the same name, calls are not followed, an iteration may be run and there is no time budget,
both analyses succeed, and their reports are the same but for their warnings, or the engine refuses
a string in both, and they fail with the same error, which names it. -/
theorem analysis_order_independent (engine : Engine) (settings : Settings)
    (context context' : Context) (clock clock' : Nat → Id Nat) (program program' : Program)
    (horder : program.Reordered program') (hnames : (program.methods.map (·.name)).Nodup)
    (hcalls : settings.analysis.followCalls = false) (hmax : 1 ≤ settings.analysis.maxIterations)
    (htimeout : settings.analysis.timeoutSeconds = none) :
    (∃ report report',
      (Analyzer.analyze { settings, context } engine clock program).1.report = .ok report ∧
      (Analyzer.analyze { settings, context := context' } engine clock' program').1.report =
        .ok report' ∧
      report.withoutWarnings = report'.withoutWarnings) ∨
    ∃ source reason,
      (Analyzer.analyze { settings, context } engine clock program).1.report =
        .error (.invalidPattern source reason) ∧
      (Analyzer.analyze { settings, context := context' } engine clock' program').1.report =
        .error (.invalidPattern source reason) ∧
      Analyzer.Refuses { settings, context } engine program source reason ∧
      Analyzer.Refuses { settings, context := context' } engine program' source reason := by
  have hstart : (Analyzer.start { settings, context }).knowledge.discovered =
      (Analyzer.start { settings, context := context' }).knowledge.discovered := rfl
  have husable : settings.analysis.maxIterations ≠ 0 := by omega
  have halike := horder.loop_end_alike engine hnames hcalls htimeout clock clock'
    (settings.analysis.maxIterations - 1) 0 hstart
  rcases hloop : Run.loop (program.driver engine) settings.analysis clock
      (settings.analysis.maxIterations - 1) 0 (Analyzer.start { settings, context }) with
    ⟨ending, final⟩
  rcases hloop' : Run.loop (program'.driver engine) settings.analysis clock'
      (settings.analysis.maxIterations - 1) 0 (Analyzer.start { settings, context := context' })
    with ⟨ending', final'⟩
  have hreport := Analyzer.report_of_loop { settings, context } husable hloop
  have hreport' := Analyzer.report_of_loop { settings, context := context' } husable hloop'
  rw [hloop, hloop'] at halike
  cases halike with
  | finished outcome outcome' _ _ houtcome hagrees =>
      exact .inl ⟨_, _, hreport, hreport', Outcome.report_eq houtcome hagrees⟩
  | failed error _ _ =>
      obtain ⟨source, reason, rfl, hrefuses⟩ := Analyzer.refuses_of_report husable hcalls hreport
      obtain ⟨source', reason', herror, hrefuses'⟩ :=
        Analyzer.refuses_of_report husable hcalls hreport'
      cases herror
      exact .inr ⟨source, reason, hreport, hreport', hrefuses, hrefuses'⟩

/-- A program in which two methods write a field and a third one loads a class by it. The first
value of the field that is collected is moved when the second one comes. -/
def serviceProgram : Program where
  entryPoints := ["App.first", "App.second", "App.run"]
  methods := [
    { name := "App.first", body := [.const "a" "Mail", .storeField "service" "a"] },
    { name := "App.second"
      body := [.loadField "a" "service", .const "b" "Box", .concat "c" "a" "b",
        .storeField "service" "c"] },
    { name := "App.run"
      body := [.loadField "a" "service", .const "b" "open", .reflect .methodCall "a" (some "b")] },
    { name := "Mail.open" }]

/-- The same program with its methods and entry points in another order. -/
def reversedProgram : Program where
  entryPoints := serviceProgram.entryPoints.reverse
  methods := serviceProgram.methods.reverse

/-- With an engine that refuses nothing, both orders give the same report but for the warnings. -/
theorem analysis_order_independent_reversed :
    serviceProgram.Reordered reversedProgram ∧
      (serviceProgram.methods.map (·.name)).Nodup ∧
      ∃ report report',
        (Analyzer.analyze { settings := {} } .unlimited (fun _ => (0 : Id Nat))
          serviceProgram).1.report = .ok report ∧
        (Analyzer.analyze { settings := {} } .unlimited (fun _ => (0 : Id Nat))
          reversedProgram).1.report = .ok report' ∧
        report.withoutWarnings = report'.withoutWarnings := by
  have horder : serviceProgram.Reordered reversedProgram :=
    ⟨(List.reverse_perm _).symm, (List.reverse_perm _).symm⟩
  have hnames : (serviceProgram.methods.map (·.name)).Nodup := by decide
  refine ⟨horder, hnames, ?_⟩
  rcases analysis_order_independent .unlimited {} .empty .empty (fun _ => 0) (fun _ => 0)
      serviceProgram reversedProgram horder hnames rfl (by decide) rfl with
    hreports | ⟨source, reason, _, _, hrefuses, _⟩
  · exact hreports
  · exact absurd hrefuses (Analyzer.not_refuses_unlimited _ serviceProgram source reason)

/-! ## A string that is refused -/

/-- A method that loads a class by a name. -/
def loadingMethod (name : String) : Method where
  name := "Main.run"
  body := [.const "c" name, .reflect .classCall "c" none]

/-- The program that has only this method. -/
def loadingProgram (name : String) : Program where
  entryPoints := ["Main.run"]
  methods := [loadingMethod name]

/-- The reflective call of the method. -/
def loadingSite : Point where
  method := "Main.run"
  statement := 1

/-- The operand of the call is the first box of the method, which holds the name. -/
theorem loading_method_outline (name : String) :
    (loadingMethod name).outline.tracked[loadingSite.operand Point.classSlot]? = some 0 ∧
      (loadingMethod name).outline.boxes[0]? = some (.term (.terminal name)) := by
  constructor <;>
    simp [Method.outline, loadingMethod, loadingSite, Outline.defineParams, Outline.steps,
      Outline.step, Outline.defineContent, Outline.alloc, Outline.define, Outline.trackOperand,
      Outline.read]

/-- When the method is collected, the operand of its call is resolved to the name. -/
theorem Collected.name_mem_strings_at {methods : List Method} {labels : List (Label Method)}
    {context : Context} {settings : ResolverSettings} {iteration : Nat} {results : Results}
    {name : String} (hcollected : Collected methods labels context)
    (hmethod : loadingMethod name ∈ methods)
    (hresolve : context.resolveTracked settings iteration = .ok results) :
    name ∈ results.stringsAt (loadingSite.operand Point.classSlot) := by
  obtain ⟨htracked, hbox⟩ := loading_method_outline name
  obtain ⟨box, hpoint, hlabel⟩ := hcollected.tracks hmethod htracked
  have hterm : context.arena.get? box = some (.terminal name) := by
    cases hcollected.layout.placed hlabel with
    | own _ _ content term hcontent hget hshows =>
        rw [planOf, if_pos hmethod, hbox] at hcontent
        cases hcontent
        cases hshows
        exact hget
  obtain ⟨_, hpoints⟩ := Context.resolved_at_of_resolve_tracked hresolve
  obtain ⟨entry, hentry, hat, hresolution⟩ :=
    exists_partner hpoints (Std.ExtTreeMap.mem_toList_iff_getElem?_eq_some.mpr hpoint)
  have hlanguage : entry.resolution.solution.language = {name} :=
    ((Arena.resolved_of_resolve hresolution).unfolds.deterministic (.terminal _ _ name hterm)).1
  have hstring : name ∈ entry.resolution.solution.language := by
    rw [hlanguage]
    exact Set.mem_singleton name
  have hfound : results.find? (loadingSite.operand Point.classSlot) = some entry :=
    (Results.find?_eq_some_iff (Context.ordered_of_resolve_tracked hresolve)).mpr ⟨hentry, hat⟩
  rw [Results.stringsAt, hfound]
  exact Std.ExtTreeSet.mem_toList.mpr hstring

/-- An analysis that learns fails at a class name that the engine refuses. -/
theorem loading_program_refused {analyzer : Analyzer} {engine : Engine} {clock : Nat → Id Nat}
    {name reason : String} (hmax : analyzer.settings.analysis.maxIterations ≠ 0)
    (hiterative : analyzer.settings.analysis.iterative = true)
    (hcalls : analyzer.settings.analysis.followCalls = false)
    (hrefused : engine.compile (Pattern.expression engine (Spelling.plainClass name)) =
      .error reason) :
    ∃ source reason, (analyzer.analyze engine clock (loadingProgram name)).1.report =
      .error (.invalidPattern source reason) := by
  cases hreport : (analyzer.analyze engine clock (loadingProgram name)).1.report with
  | error error =>
      obtain ⟨source, reason, rfl, _⟩ := Analyzer.refuses_of_report hmax hcalls hreport
      exact ⟨source, reason, rfl⟩
  | ok report =>
      obtain ⟨before, after, fixed, hlast⟩ := Analyzer.exists_last_iteration hreport
      obtain ⟨labels, hcollected⟩ := hlast.iterates.exists_collected
      obtain ⟨found, hedges, _⟩ := hlast.iterates.exists_reflective_edges hiterative
      have hmethod : loadingMethod name ∈
          (loadingProgram name).reachableMethods before.discovered := by
        rw [← hlast.collected]
        exact hlast.root_mem (List.mem_singleton_self _) rfl
      have hsite : after.context.sites[loadingSite]? = some .classCall :=
        hcollected.sites.mpr ⟨_, hmethod, Method.outline_sites.mpr ⟨1, "c", none, rfl, rfl⟩⟩
      have hname := hcollected.name_mem_strings_at hmethod hlast.iterates.resolved
      have hsource : Spelling.plainClass name ∈ report.results.sourcesAt loadingSite :=
        List.mem_append_left _ (List.mem_map_of_mem hname)
      exact absurd ⟨loadingSite, .classCall, hsite, hsource, hrefused⟩
        (Program.not_refuses_of_reflective_edges hedges _ reason)

/-- A text of so many wildcards that the small engine refuses it. -/
def crowdedText : String :=
  String.ofList (Wildcard.markers 32768)

/-- With the small engine, a program of one method that loads a class by this text has no report. -/
theorem crowded_text_refused :
    ((loadingProgram crowdedText).methods.map (·.name)).Nodup ∧
      ∃ source reason,
        (Analyzer.analyze { settings := {} } .standard (fun _ => (0 : Id Nat))
          (loadingProgram crowdedText)).1.report = .error (.invalidPattern source reason) := by
  have htext : crowdedText.toList = Wildcard.markers 32768 := String.toList_ofList
  have hplain : Spelling.plainClass crowdedText = crowdedText :=
    Spelling.plain_class_of_is_unconstrained (Wildcard.is_unconstrained_iff.mpr ⟨_, htext⟩)
  obtain ⟨reason, hrefused⟩ := Pattern.standard_refuses_markers htext (by decide)
  rw [← hplain] at hrefused
  exact ⟨List.nodup_singleton _, loading_program_refused (by decide) rfl rfl hrefused⟩

end StringReach
