import StringReach.Proofs.Run

/-!
# Which violations an analysis can raise

A traversal that fails has met a box below its root that it cannot pass, and its violation names
that box (`Stops`). Collecting leaves no handle that dangles (`Context.Intact`), so the only box of
a context that stops anything is a call while calls are followed. Resolving a box raises no other
violation, nor does an iteration or a whole analysis, which can also fail at a string that the
engine refuses (`analyze_fails_only_at_calls`). A dump never fails.
-/

namespace StringReach

namespace Arena

/-- `Stops arena followCalls root violation` says that the violation names a box at or below `root`
that cannot be passed: one that does not exist, or a call when calls are followed. -/
inductive Stops (arena : Arena) (followCalls : Bool) (root : Handle) : Violation → Prop where
  | dangling (h) : arena.Reaches root h → arena.get? h = none →
      Stops arena followCalls root (.danglingBox h)
  | call (h callee) : followCalls = true → arena.Reaches root h →
      arena.get? h = some (.call callee) → Stops arena followCalls root (.callFollowed h callee)

variable {arena : Arena} {followCalls : Bool} {root h child : Handle} {term : Term}
  {violation : Violation}

namespace Stops

/-- What stops below a child stops below the box. -/
theorem of_child (hchild : arena.Child h child) (hstops : arena.Stops followCalls child violation) :
    arena.Stops followCalls h violation := by
  cases hstops with
  | dangling other hreach hnone => exact .dangling other (.head hchild hreach) hnone
  | call other callee hfollow hreach hget =>
      exact .call other callee hfollow (.head hchild hreach) hget

/-- Below an intact box only a call stops. -/
theorem of_intact (hstops : arena.Stops followCalls root violation) (hintact : arena.Intact root) :
    ∃ node callee, violation = .callFollowed node callee ∧ followCalls = true ∧
      arena.Reaches root node ∧ arena.get? node = some (.call callee) := by
  cases hstops with
  | dangling other hreach hnone =>
      obtain ⟨term, hget⟩ := hintact other hreach
      cases hget.symm.trans hnone
  | call other callee hfollow hreach hget => exact ⟨other, callee, rfl, hfollow, hreach, hget⟩

end Stops

/-! ## The sweep -/

mutual

/-- A sweep that fails is stopped. -/
theorem sweep_stops (path : Path) (seen : Sweep) (h : Handle)
    (hsweep : arena.sweep followCalls path seen h = .error violation) :
    arena.Stops followCalls h violation := by
  rw [sweep] at hsweep
  split at hsweep
  · rename_i hget
    cases hsweep
    exact .dangling h .refl hget
  · rename_i term hget
    split at hsweep
    · -- Of the boxes without children only a call stops a sweep.
      cases term with
      | call callee =>
          rw [Sweep.pass] at hsweep
          split at hsweep
          · rename_i hfollow
            cases hsweep
            exact .call h callee hfollow .refl hget
          · cases hsweep
      | top | bottom | terminal _ | parameter | union _ | concat _ _ | eq _ | pending =>
          cases hsweep
    · split at hsweep
      · cases hsweep
      · split at hsweep
        · cases hsweep
        · rename_i hentered
          have hroom : arena.room 0 (path.enter h) < arena.room 0 path :=
            room_enter_lt (lt_size_of_get? hget) (by omega)
          rcases bind_eq_error.mp hsweep with hall | ⟨_, _, hafter⟩
          · obtain ⟨child, hmem, hstops⟩ :=
              sweep_all_stops (path.enter h) seen term.children hall
            exact hstops.of_child ((child_iff hget).mpr hmem)
          · cases hafter
termination_by (arena.room 0 path, 0)

/-- A sweep below several boxes that fails is stopped below one of them. -/
theorem sweep_all_stops (path : Path) (seen : Sweep) (items : List Handle)
    (hsweep : arena.sweepAll followCalls path seen items = .error violation) :
    ∃ h ∈ items, arena.Stops followCalls h violation := by
  cases items with
  | nil =>
      rw [sweepAll] at hsweep
      cases hsweep
  | cons h rest =>
      rw [sweepAll] at hsweep
      rcases bind_eq_error.mp hsweep with hfirst | ⟨middle, _, hrest⟩
      · exact ⟨h, by simp, sweep_stops path seen h hfirst⟩
      · obtain ⟨box, hmem, hstops⟩ := sweep_all_stops path middle rest hrest
        exact ⟨box, List.mem_cons_of_mem h hmem, hstops⟩
termination_by (arena.room 0 path, items.length)

end

/-- A check that fails is stopped. -/
theorem is_recursive_stops (hcheck : arena.isRecursive followCalls root = .error violation) :
    arena.Stops followCalls root violation := by
  rw [isRecursive, Checker.check_eq] at hcheck
  cases hsweep : arena.sweep followCalls .empty {} root with
  | error other =>
      rw [hsweep] at hcheck
      cases hcheck
      exact sweep_stops .empty {} root hsweep
  | ok seen =>
      rw [hsweep] at hcheck
      cases hcheck

/-! ## Resolving -/

/-- Resolving fails only where the check is stopped. -/
theorem resolve_stops {settings : ResolverSettings}
    (hresolve : arena.resolve settings root = .error violation) :
    arena.Stops settings.followCalls root violation := by
  cases hcheck : arena.isRecursive settings.followCalls root with
  | error other =>
      rw [resolve, hcheck] at hresolve
      cases hresolve
      exact is_recursive_stops hcheck
  | ok recursive =>
      obtain ⟨resolution, hsuccess⟩ := exists_resolve_of_check hcheck
      cases hresolve.symm.trans hsuccess

/-- No box below one that was resolved stops a traversal. -/
theorem not_reaches_blocked_of_resolve {settings : ResolverSettings} {resolution : Resolution}
    (hresolve : arena.resolve settings root = .ok resolution) :
    ¬ arena.ReachesSome (arena.Blocked settings.followCalls) root := by
  rw [resolve] at hresolve
  obtain ⟨recursive, hcheck, _⟩ := bind_eq_ok.mp hresolve
  exact Checker.not_reaches_blocked_of_check hcheck

/-! ## The text of a term -/

mutual

/-- Writing out a box fails only at a handle that dangles. -/
theorem render_below_stops (showHandles : Bool) (path : Path) (h : Handle)
    (hrender : arena.renderBelow showHandles path h = .error violation) :
    arena.Stops false h violation := by
  rw [renderBelow] at hrender
  split at hrender
  · rename_i hget
    cases hrender
    exact .dangling h .refl hget
  · rename_i term hget
    split at hrender
    · cases hrender
    · split at hrender
      · cases hrender
      · rename_i hentered
        have hroom : arena.room 0 (path.enter h) < arena.room 0 path :=
          room_enter_lt (lt_size_of_get? hget) (by omega)
        rcases bind_eq_error.mp hrender with hall | ⟨_, _, hafter⟩
        · obtain ⟨child, hmem, hstops⟩ :=
            render_all_stops showHandles (path.enter h) term.children hall
          exact hstops.of_child ((child_iff hget).mpr hmem)
        · cases hafter
termination_by (arena.room 0 path, 0)

/-- Writing out several boxes fails only at a handle that dangles below one of them. -/
theorem render_all_stops (showHandles : Bool) (path : Path) (items : List Handle)
    (hrender : arena.renderAll showHandles path items = .error violation) :
    ∃ h ∈ items, arena.Stops false h violation := by
  cases items with
  | nil =>
      rw [renderAll] at hrender
      cases hrender
  | cons h rest =>
      rw [renderAll] at hrender
      rcases bind_eq_error.mp hrender with hfirst | ⟨_, _, hrest⟩
      · exact ⟨h, by simp, render_below_stops showHandles path h hfirst⟩
      · rcases bind_eq_error.mp hrest with hothers | ⟨_, _, hafter⟩
        · obtain ⟨box, hmem, hstops⟩ := render_all_stops showHandles path rest hothers
          exact ⟨box, List.mem_cons_of_mem h hmem, hstops⟩
        · cases hafter
termination_by (arena.room 0 path, items.length)

end

/-- An intact box can be written out. -/
theorem exists_render (hintact : arena.Intact root) (showHandles : Bool) :
    ∃ text, arena.render showHandles root = .ok text := by
  cases hrender : arena.render showHandles root with
  | ok text => exact ⟨text, rfl⟩
  | error violation =>
      obtain ⟨_, _, _, hfollow, _⟩ :=
        (render_below_stops showHandles .empty root hrender).of_intact hintact
      cases hfollow

end Arena

/-! ## Contexts -/

namespace Context

/-- A call lies at or below the box of a tracked point. -/
def MeetsCall (context : Context) (node : Handle) (callee : String) : Prop :=
  context.arena.get? node = some (.call callee) ∧
    ∃ (point : Point) (box : Handle), context.tracked[point]? = some box ∧
      context.arena.Reaches box node

variable {context : Context} {settings : ResolverSettings} {iteration : Nat}

/-- Points that cannot be resolved have a call below them, and calls are followed. -/
theorem meets_call_of_resolve_tracked (hintact : context.Intact) {violation : Violation}
    (hresolve : context.resolveTracked settings iteration = .error violation) :
    settings.followCalls = true ∧
      ∃ node callee, violation = .callFollowed node callee ∧ context.MeetsCall node callee := by
  rw [resolveTracked] at hresolve
  rcases bind_eq_error.mp hresolve with hmap | ⟨_, _, hafter⟩
  · obtain ⟨⟨point, box⟩, hmem, hentry⟩ := exists_of_map_error hmap
    have htracked := Std.ExtTreeMap.mem_toList_iff_getElem?_eq_some.mp hmem
    rcases bind_eq_error.mp hentry with hbox | ⟨_, _, hafter⟩
    · obtain ⟨node, callee, rfl, hfollow, hreach, hget⟩ :=
        (Arena.resolve_stops hbox).of_intact (hintact.tracked htracked)
      exact ⟨hfollow, node, callee, rfl, hget, point, box, htracked, hreach⟩
    · cases hafter
  · cases hafter

/-- Points that were resolved while calls are followed have no call below them. -/
theorem not_meets_call_of_resolve_tracked {results : Results}
    (hresolve : context.resolveTracked settings iteration = .ok results)
    (hfollow : settings.followCalls = true) (node : Handle) (callee : String) :
    ¬ context.MeetsCall node callee := by
  rintro ⟨hget, point, box, htracked, hreach⟩
  obtain ⟨_, hentries⟩ := resolved_at_of_resolve_tracked hresolve
  obtain ⟨entry, _, _, hresolved⟩ :=
    exists_partner hentries (Std.ExtTreeMap.mem_toList_iff_getElem?_eq_some.mpr htracked)
  exact Arena.not_reaches_blocked_of_resolve hresolved
    ⟨node, hreach, .inr ⟨hfollow, callee, hget⟩⟩

/-- An intact context can be dumped. -/
theorem exists_dump (hintact : context.Intact) (settings : DumpSettings) :
    ∃ text, context.dump settings = .ok text := by
  have hentry : ∀ (key : String) {box : Handle}, context.arena.Intact box →
      ∃ lines, context.dumpEntry settings key box = .ok lines := by
    intro key box hbox
    obtain ⟨term, hrender⟩ := Arena.exists_render hbox settings.showHandles
    obtain ⟨solution, hsolve, _⟩ := Arena.solve_bounded_unfolds hbox settings.depth
    rw [dumpEntry, hrender, hsolve]
    exact ⟨_, rfl⟩
  have hentries : ∀ entry ∈ context.dumpEntries,
      ∃ lines, context.dumpEntry settings entry.1 entry.2 = .ok lines := by
    intro entry hmem
    rw [dumpEntries, List.mem_append, List.mem_map, List.mem_map] at hmem
    rcases hmem with ⟨⟨name, box⟩, hfield, rfl⟩ | ⟨⟨point, box⟩, htracked, rfl⟩
    · exact hentry _ (hintact.fields (Std.ExtTreeMap.mem_toList_iff_getElem?_eq_some.mp hfield))
    · exact hentry _ (hintact.tracked (Std.ExtTreeMap.mem_toList_iff_getElem?_eq_some.mp htracked))
  obtain ⟨lines, hmap⟩ := exists_map_ok hentries
  exact ⟨_, bind_eq_ok.mpr ⟨lines, hmap, rfl⟩⟩

end Context

/-! ## Analyses -/

/-- An outcome that the calls of a context account for: a success, when calls are not followed or
none lies below a tracked point, or else the violation that names such a call. -/
inductive Context.FailsOnlyAtCalls {α : Type} (context : Context) (followCalls : Bool) :
    Except Error α → Prop where
  | succeeds (value : α) : (followCalls = true → ∀ node callee, ¬ context.MeetsCall node callee) →
      FailsOnlyAtCalls context followCalls (.ok value)
  | fails (node : Handle) (callee : String) : followCalls = true → context.MeetsCall node callee →
      FailsOnlyAtCalls context followCalls (.error (.violation (.callFollowed node callee)))

/-- The context of the methods that can be reached is intact. -/
theorem Program.intact_of_collect {program : Program} {discovered : Std.ExtTreeSet CallEdge}
    {context : Context}
    (hcollect : Context.empty.collectAll (program.reachableMethods discovered) = .ok context) :
    context.Intact := by
  obtain ⟨labels, hcollected⟩ := exists_labels hcollect
  exact hcollected.intact

namespace Analyzer

/-- Whatever an analyzer has analysed before, an analysis with usable settings succeeds, or calls
are followed and one of its iterations has met a call below a tracked point, which the violation
names, unless the engine refuses a string, which the error names then. In all cases the context that
is left can be dumped. -/
theorem analyze_fails_only_at_calls (analyzer : Analyzer) (engine : Engine)
    (clock : Nat → Id Nat) (program : Program)
    (hmax : 1 ≤ analyzer.settings.analysis.maxIterations) :
    ∃ iteration,
      Context.empty.collectAll (analyzer.collectedIn engine program iteration) =
        .ok (analyzer.analyze engine clock program).2.context ∧
      ((analyzer.analyze engine clock program).2.context.FailsOnlyAtCalls
          analyzer.settings.analysis.followCalls (analyzer.analyze engine clock program).1.report ∨
        ∃ source reason,
          (analyzer.analyze engine clock program).1.report =
            .error (.invalidPattern source reason) ∧
          analyzer.Refuses engine program source reason) ∧
      ∃ text, (analyzer.analyze engine clock program).2.dump = .ok text := by
  have hmax : analyzer.settings.analysis.maxIterations ≠ 0 := by omega
  have hstart : Run.Unsettled (program.driver engine) analyzer.settings.analysis analyzer.start 0
      analyzer.start := .start
  rcases Run.loop_outcome clock hstart
      (Nat.zero_add (analyzer.settings.analysis.maxIterations - 1)) with
    ⟨outcome, final, hloop, hended⟩ | ⟨error, final, last, begun, hloop, hbegun, hiterate⟩
  · obtain ⟨last, begun, fixed, after, hbegun, hiterate, _, hfinal, _⟩ := hended.last
    have hiterates := Program.iterates_of_iterate hiterate
    rw [← hfinal] at hiterates
    rw [analyzer.report_of_loop hmax hloop, analyzer.analyzer_of_loop hmax hloop]
    refine ⟨last, ?_, .inl (.succeeds _ ?_), Context.exists_dump ?_ _⟩
    · rw [collected_in_of_unsettled hbegun]
      exact hiterates.collected
    · exact Context.not_meets_call_of_resolve_tracked hiterates.resolved
    · exact Program.intact_of_collect hiterates.collected
  · rw [analyzer.report_of_loop hmax hloop, analyzer.analyzer_of_loop hmax hloop]
    refine ⟨last, ?_⟩
    rw [collected_in_of_unsettled hbegun]
    cases Program.fails_of_iterate hiterate with
    | unresolved broken hcollect hresolve =>
        have hintact := Program.intact_of_collect hcollect
        obtain ⟨hfollow, node, callee, rfl, hcall⟩ :=
          Context.meets_call_of_resolve_tracked hintact hresolve
        exact ⟨hcollect, .inl (.fails node callee hfollow hcall), Context.exists_dump hintact _⟩
    | refused results error hcollect hresolve hlearned =>
        obtain ⟨hiterative, source, reason, rfl, hrefuses⟩ :=
          Program.refuses_of_learned_edges hlearned
        refine ⟨hcollect, .inr ⟨source, reason, rfl, hiterative, last, _, results, ?_, hresolve,
          hrefuses⟩, Context.exists_dump (Program.intact_of_collect hcollect) _⟩
        rw [collected_in_of_unsettled hbegun]
        exact hcollect

/-- A program that finds in its first iteration a method which joins the value of a call to itself
in a loop and uses it as the name of a class. -/
def callProgram : Program where
  entryPoints := ["Main.run"]
  methods := [
    { name := "Main.run"
      body := [.const "c" "Plugin", .const "n" "load", .reflect .methodCall "c" (some "n")] },
    { name := "Plugin.load"
      body := [.invoke "Plugin.name" (some "x") [], .phi "y" ["x", "z"], .concat "z" "y" "x",
        .reflect .methodCall "z" none] }]

/-- An analyzer that follows calls. -/
def callAnalyzer : Analyzer where
  settings := { analysis := { followCalls := true } }

/-- With an engine that refuses nothing, the analysis of the program fails at the call or
succeeds. -/
theorem analyze_fails_only_at_calls_loop :
    1 ≤ callAnalyzer.settings.analysis.maxIterations ∧
      ∃ iteration,
        Context.empty.collectAll (callAnalyzer.collectedIn .unlimited callProgram iteration) =
          .ok (callAnalyzer.analyze .unlimited (fun _ => (0 : Id Nat)) callProgram).2.context ∧
        (callAnalyzer.analyze .unlimited (fun _ => (0 : Id Nat))
          callProgram).2.context.FailsOnlyAtCalls true
          (callAnalyzer.analyze .unlimited (fun _ => (0 : Id Nat)) callProgram).1.report ∧
        ∃ text,
          (callAnalyzer.analyze .unlimited (fun _ => (0 : Id Nat)) callProgram).2.dump =
            .ok text := by
  have hmax : 1 ≤ callAnalyzer.settings.analysis.maxIterations := by decide
  obtain ⟨iteration, hcollect, houtcome, hdump⟩ := analyze_fails_only_at_calls callAnalyzer
    .unlimited (fun _ => (0 : Id Nat)) callProgram hmax
  refine ⟨hmax, iteration, hcollect, ?_, hdump⟩
  rcases houtcome with hcalls | ⟨source, reason, _, hrefuses⟩
  · exact hcalls
  · exact absurd hrefuses (callAnalyzer.not_refuses_unlimited callProgram source reason)

end Analyzer

end StringReach
