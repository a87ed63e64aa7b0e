import Mathlib.Data.List.Perm.Subperm
import Mathlib.Data.List.ProdSigma
import StringReach.Proofs.Run

/-!
# Convergence of an analysis

An iteration that is not fixed adds an edge to those found before, and one that is fixed has found
no new edge. The first says how many iterations there can be (`converges_within_bound`), because an
edge goes from a reflective call to a method of the program. The second says that what the last
iteration of a converged analysis has collected is closed under calls of both kinds
(`converged_closed`).
-/

namespace StringReach

/-! ## Edges -/

/-- The edges of a set are listed once. -/
theorem nodup_to_list (edges : Std.ExtTreeSet CallEdge) : edges.toList.Nodup := by
  refine Std.ExtTreeSet.distinct_toList.imp ?_
  intro a b hne heq
  exact hne (Std.LawfulEqCmp.compare_eq_iff_eq.mpr heq)

/-- Edges that do not make a set larger are in it. -/
theorem insert_many_eq_of_size {edges : Std.ExtTreeSet CallEdge} {found : List CallEdge}
    (hsize : (edges.insertMany found).size = edges.size) : edges.insertMany found = edges := by
  have hsubset : edges.toList ⊆ (edges.insertMany found).toList := by
    intro edge hedge
    simp only [Std.ExtTreeSet.mem_toList, Std.ExtTreeSet.mem_insertMany_list] at hedge ⊢
    exact .inl hedge
  have hlength : (edges.insertMany found).toList.length ≤ edges.toList.length := by
    rw [Std.ExtTreeSet.length_toList, Std.ExtTreeSet.length_toList, hsize]
  have hperm := (List.subperm_of_subset (nodup_to_list edges) hsubset).perm_of_length_le hlength
  refine Std.ExtTreeSet.ext_mem fun edge => ?_
  rw [← Std.ExtTreeSet.mem_toList, ← Std.ExtTreeSet.mem_toList]
  exact hperm.mem_iff.symm

namespace Program.Iterates

variable {program : Program} {engine : Engine} {settings : AnalysisSettings} {iteration : Nat}
  {before after : Knowledge} {results : Results} {fixed : Bool}

/-- An iteration forgets no edge. -/
theorem size_le
    (hiterates : program.Iterates engine settings iteration before after results fixed) :
    before.discovered.size ≤ after.discovered.size := by
  obtain ⟨found, _, hdiscovered⟩ := hiterates.discovered
  rw [hdiscovered]
  exact Std.ExtTreeSet.size_le_size_insertMany_list

/-- A fixed iteration has found no new edge. -/
theorem discovered_eq
    (hiterates : program.Iterates engine settings iteration before after results true) :
    after.discovered = before.discovered := by
  have hsize := hiterates.fixed_iff.mp rfl
  obtain ⟨found, _, hdiscovered⟩ := hiterates.discovered
  rw [hdiscovered] at hsize ⊢
  exact insert_many_eq_of_size hsize

/-- An iteration that may learn learns the edges that its strings give. -/
theorem exists_reflective_edges
    (hiterates : program.Iterates engine settings iteration before after results fixed)
    (hiterative : settings.iterative = true) :
    ∃ found, program.reflectiveEdges engine after.context results = .ok found ∧
      ∀ edge ∈ found, edge ∈ after.discovered := by
  obtain ⟨found, hlearned, hdiscovered⟩ := hiterates.discovered
  refine ⟨found, learned_edges_of_iterative hiterative ▸ hlearned, fun edge hedge => ?_⟩
  rw [hdiscovered, Std.ExtTreeSet.mem_insertMany_list]
  exact .inr (List.contains_iff_mem.mpr hedge)

end Program.Iterates

/-! ## How many iterations there are -/

/-- Whether a statement is a reflective call. -/
def Statement.isReflect : Statement → Bool
  | .reflect _ _ _ => true
  | _ => false

/-- The reflective calls of a method. -/
def Method.sites (method : Method) : List Point :=
  (method.body.zipIdx.filter fun entry => entry.1.isReflect).map fun entry =>
    { method := method.name, statement := entry.2 }

namespace Program

variable {program : Program} {engine : Engine} {settings : AnalysisSettings} {iteration : Nat}
  {before after : Knowledge} {results : Results} {fixed : Bool}

/-- The number of reflective calls of a program. -/
def reflectCount (program : Program) : Nat :=
  (program.methods.flatMap (·.body)).countP Statement.isReflect

/-- The edges that go from a reflective call of a program to one of its methods. -/
def possibleEdges (program : Program) : List CallEdge :=
  (program.methods.flatMap Method.sites ×ˢ program.methods).map fun (site, target) =>
    { caller := site.method, callee := target.name, origin := .reflective site }

/-- There is a possible edge for each reflective call and each method. -/
theorem length_possible_edges (program : Program) :
    program.possibleEdges.length = program.reflectCount * program.methods.length := by
  have hsites : ∀ method : Method,
      method.sites.length = method.body.countP Statement.isReflect := by
    intro method
    have hbody : method.body = method.body.zipIdx.map Prod.fst := by
      rw [List.zipIdx_map_fst]
    rw [Method.sites, List.length_map, ← List.countP_eq_length_filter]
    conv_rhs => rw [hbody, List.countP_map]
    rfl
  rw [possibleEdges, List.length_map, List.length_product, reflectCount, List.length_flatMap,
    List.countP_flatMap]
  simp only [hsites]
  rfl

/-- The edges that an iteration learns are possible. -/
theorem Iterates.possible
    (hiterates : program.Iterates engine settings iteration before after results fixed)
    (hbefore : ∀ edge ∈ before.discovered, edge ∈ program.possibleEdges) :
    ∀ edge ∈ after.discovered, edge ∈ program.possibleEdges := by
  obtain ⟨labels, hcollected⟩ := hiterates.exists_collected
  obtain ⟨found, hlearned, hdiscovered⟩ := hiterates.discovered
  intro edge hedge
  rw [hdiscovered, Std.ExtTreeSet.mem_insertMany_list] at hedge
  rcases hedge with hedge | hedge
  · exact hbefore edge hedge
  · have hmem := List.contains_iff_mem.mp hedge
    obtain ⟨site, kind, hsite, targets, htargets, target, htarget, rfl⟩ :=
      (mem_reflective_edges (reflective_edges_of_mem_learned_edges hlearned hmem)).mp hmem
    obtain ⟨method, hmethod, houtline⟩ := hcollected.sites.mp hsite
    obtain ⟨index, cls, member, rfl, hbody⟩ := Method.outline_sites.mp houtline
    obtain ⟨classes, members, _, _, rfl⟩ := targets_eq_ok_iff.mp htargets
    refine List.mem_map.mpr ⟨({ method := method.name, statement := index }, target), ?_, rfl⟩
    refine List.mem_product.mpr ⟨List.mem_flatMap.mpr
      ⟨method, mem_of_mem_reachable_methods hmethod, ?_⟩, List.mem_of_mem_filter htarget⟩
    refine List.mem_map.mpr ⟨(.reflect kind cls member, index), ?_, rfl⟩
    exact List.mem_filter.mpr ⟨List.mk_mem_zipIdx_iff_getElem?.mpr hbody, rfl⟩

end Program

/-- An analysis that has run for some iterations without a fixed one has found as many edges, and no
other edges than possible ones. -/
theorem Run.Unsettled.edges {analyzer : Analyzer} {engine : Engine} {program : Program}
    {settings : AnalysisSettings} {iteration : Nat} {run : Run Knowledge}
    (hrun : Run.Unsettled (program.driver engine) settings analyzer.start iteration run) :
    iteration ≤ run.knowledge.discovered.size ∧
      ∀ edge ∈ run.knowledge.discovered, edge ∈ program.possibleEdges := by
  induction hrun with
  | start => exact ⟨Nat.zero_le _, fun edge hedge => absurd hedge Std.ExtTreeSet.not_mem_empty⟩
  | next iteration results run after _ hiterate ih =>
      have hiterates := Program.iterates_of_iterate hiterate
      have hle := hiterates.size_le
      have hne : after.knowledge.discovered.size ≠ run.knowledge.discovered.size := by
        intro hsize
        cases hiterates.fixed_iff.mpr hsize
      exact ⟨by omega, hiterates.possible ih.2⟩

/-- A set of possible edges is not larger than their number. -/
theorem size_le_possible_edges {program : Program} {edges : Std.ExtTreeSet CallEdge}
    (hedges : ∀ edge ∈ edges, edge ∈ program.possibleEdges) :
    edges.size ≤ program.reflectCount * program.methods.length := by
  have hsubset : edges.toList ⊆ program.possibleEdges :=
    fun edge hedge => hedges edge (Std.ExtTreeSet.mem_toList.mp hedge)
  calc edges.size = edges.toList.length := Std.ExtTreeSet.length_toList.symm
    _ ≤ program.possibleEdges.length :=
      (List.subperm_of_subset (nodup_to_list edges) hsubset).length_le
    _ = program.reflectCount * program.methods.length := program.length_possible_edges

/-- An analysis without a time limit that does not follow calls converges when it may run one
iteration more than there are pairs of a reflective call and a method, unless the engine refuses a
string. -/
theorem exists_converged (analyzer : Analyzer) (engine : Engine) (clock : Nat → Id Nat)
    (program : Program) (htimeout : analyzer.settings.analysis.timeoutSeconds = none)
    (hcalls : analyzer.settings.analysis.followCalls = false)
    (hmax : program.reflectCount * program.methods.length + 1 ≤
      analyzer.settings.analysis.maxIterations)
    (hreads : ∀ source reason, ¬ analyzer.Refuses engine program source reason) :
    ∃ report, (analyzer.analyze engine clock program).1.report = .ok report ∧
      report.convergence = .converged := by
  rcases analyzer.analyze_outcome engine clock program (by omega) with
    ⟨outcome, final, hended, hreport⟩ | ⟨error, final, last, begun, hbegun, hiterate, _⟩
  · refine ⟨_, hreport, ?_⟩
    cases hended with
    | converged => rfl
    | timedOut _ _ _ _ seconds hseconds => cases htimeout.symm.trans hseconds
    | capReached results begun after hbegun hiterate =>
        -- The last iteration that may be run has found an edge too, and there are not so many.
        obtain ⟨hle, hpossible⟩ := (Run.Unsettled.next _ _ _ _ hbegun hiterate).edges
        have hsize := size_le_possible_edges hpossible
        omega
  · obtain ⟨source, reason, _, hrefuses⟩ :=
      Analyzer.refuses_of_fails hcalls hbegun (Program.fails_of_iterate hiterate)
    exact absurd hrefuses (hreads source reason)

/-- For an analysis without a time limit that does not follow calls, iterative or not, one
iteration more than there are pairs of a reflective call and a method is enough to converge, if the
engine refuses none of the strings that are met. Whatever the settings are, an analysis that has
converged did so after at most one iteration more than it has found edges. -/
theorem converges_within_bound (analyzer : Analyzer) (engine : Engine) (clock : Nat → Id Nat)
    (program : Program) :
    (analyzer.settings.analysis.timeoutSeconds = none →
      analyzer.settings.analysis.followCalls = false →
      program.reflectCount * program.methods.length + 1 ≤
        analyzer.settings.analysis.maxIterations →
      (∀ source reason, ¬ analyzer.Refuses engine program source reason) →
      ∃ report, (analyzer.analyze engine clock program).1.report = .ok report ∧
        report.convergence = .converged) ∧
    ∀ report, (analyzer.analyze engine clock program).1.report = .ok report →
      report.convergence = .converged →
      report.iterations ≤ report.discoveredEdges.length + 1 := by
  constructor
  · intro htimeout hcalls hmax hreads
    exact exists_converged analyzer engine clock program htimeout hcalls hmax hreads
  · intro report hreport hconverged
    obtain ⟨outcome, final, hended, rfl⟩ := Analyzer.analyze_ended hreport
    obtain ⟨last, begun, fixed, after, hbegun, hiterate, hiterations, hfinal, _⟩ := hended.last
    have hle := hbegun.edges.1
    have hgrows := (Program.iterates_of_iterate hiterate).size_le
    show outcome.iterations ≤ final.knowledge.discovered.toList.length + 1
    rw [Std.ExtTreeSet.length_toList, hiterations, hfinal]
    omega

/-- A program whose entry point names a method of another class by two strings. -/
def pluginProgram : Program where
  entryPoints := ["Main.run"]
  methods := [
    { name := "Main.run"
      body := [.const "c" "Plugin", .const "n" "load", .reflect .methodCall "c" (some "n")] },
    { name := "Plugin.load", body := [.invoke "Plugin.init" none []] },
    { name := "Plugin.init" }]

/-- An analyzer that may run as many iterations as the bound for the program asks for. -/
def pluginAnalyzer : Analyzer where
  settings := { analysis := { maxIterations := 4 } }

/-- With an engine that refuses nothing, the analysis of the program converges within the bound. -/
theorem converges_within_bound_plugin :
    pluginProgram.reflectCount * pluginProgram.methods.length + 1 = 4 ∧
      ∃ report,
        (pluginAnalyzer.analyze .unlimited (fun _ => (0 : Id Nat)) pluginProgram).1.report =
          .ok report ∧
        report.convergence = .converged ∧
        report.iterations ≤ report.discoveredEdges.length + 1 := by
  have hcount : pluginProgram.reflectCount * pluginProgram.methods.length + 1 = 4 := by decide
  obtain ⟨hfirst, hsecond⟩ :=
    converges_within_bound pluginAnalyzer .unlimited (fun _ => (0 : Id Nat)) pluginProgram
  obtain ⟨report, hreport, hconverged⟩ :=
    hfirst rfl rfl (Nat.le_of_eq hcount) (pluginAnalyzer.not_refuses_unlimited pluginProgram)
  exact ⟨hcount, report, hreport, hconverged, hsecond report hreport hconverged⟩

/-! ## What a converged analysis is closed under -/

/-- What the last iteration of an analysis could reach is closed under the calls that the program
makes itself and under those that the reported strings select. -/
structure ClosedUnderCalls (analyzer : Analyzer) (engine : Engine) (program : Program)
    (report : Report) : Prop where
  roots : ∀ root ∈ program.roots, root ∈ analyzer.reachableIn engine program report.lastIteration
  direct : ∀ method ∈ analyzer.collectedIn engine program report.lastIteration,
    ∀ callee ∈ method.callees, callee ∈ analyzer.reachableIn engine program report.lastIteration
  reflective : ∀ method ∈ analyzer.collectedIn engine program report.lastIteration,
    ∀ (index : Nat) (kind : ReflectionKind) (cls : String) (member : Option String),
      method.body[index]? = some (.reflect kind cls member) →
      ∃ targets,
        program.targetsOf engine report.results { method := method.name, statement := index } kind =
          .ok targets ∧
        ∀ target ∈ targets,
          target.name ∈ analyzer.reachableIn engine program report.lastIteration ∧
          { caller := method.name, callee := target.name,
            origin := .reflective { method := method.name, statement := index } } ∈
              report.discoveredEdges

/-- When an iterative analysis has converged, its last iteration could reach every root, every
method that one of its methods calls, and every method that the reported strings select at a
reflective call of one of its methods; the edge to such a method is reported. -/
theorem converged_closed (analyzer : Analyzer) (engine : Engine) (clock : Nat → Id Nat)
    (program : Program) (report : Report) (hiterative : analyzer.settings.analysis.iterative = true)
    (hreport : (analyzer.analyze engine clock program).1.report = .ok report)
    (hconverged : report.convergence = .converged) :
    ClosedUnderCalls analyzer engine program report := by
  obtain ⟨before, after, fixed, hlast⟩ := Analyzer.exists_last_iteration hreport
  obtain rfl := hlast.converged hconverged
  obtain ⟨labels, hcollected⟩ := hlast.iterates.exists_collected
  obtain ⟨found, hedges, hlearned⟩ := hlast.iterates.exists_reflective_edges hiterative
  have hknown := hlast.iterates.discovered_eq
  -- The edges are those that the last iteration began with, so its call graph has them all.
  have hclosed : ∀ {caller callee : String},
      caller ∈ (CallGraph.ofProgram program before.discovered.toList).reachable →
      (CallGraph.ofProgram program before.discovered.toList).Calls caller callee →
      callee ∈ (CallGraph.ofProgram program before.discovered.toList).reachable := by
    intro caller callee hcaller hcall
    obtain ⟨entry, hentry, hcalls⟩ := CallGraph.mem_reachable.mp hcaller
    exact CallGraph.mem_reachable.mpr ⟨entry, hentry, hcalls.tail hcall⟩
  refine ⟨?_, ?_, ?_⟩ <;>
    simp only [hlast.collected, hlast.reachable, hlast.discoveredEdges, hknown]
  · intro root hroot
    refine CallGraph.mem_reachable.mpr ⟨root, ?_, .refl⟩
    rwa [CallGraph.entries_of_program]
  · intro method hmethod callee hcallee
    have hname := (Program.mem_reachable_methods.mp hmethod).1
    refine hclosed hname (CallGraph.calls_of_program.mpr (.inl ⟨method, ?_, hcallee, rfl⟩))
    exact Program.mem_of_mem_reachable_methods hmethod
  · intro method hmethod index kind cls member hbody
    have hname := (Program.mem_reachable_methods.mp hmethod).1
    have hsite := hcollected.sites.mpr
      ⟨method, hmethod, Method.outline_sites.mpr ⟨index, cls, member, rfl, hbody⟩⟩
    obtain ⟨targets, htargets⟩ := Program.exists_targets_of_reflective_edges hedges hsite
    refine ⟨targets, htargets, fun target htarget => ?_⟩
    have hedge := hlearned _ ((Program.mem_reflective_edges hedges).mpr
      ⟨_, kind, hsite, targets, htargets, target, htarget, rfl⟩)
    rw [hknown, ← Std.ExtTreeSet.mem_toList] at hedge
    exact ⟨hclosed hname (CallGraph.calls_of_program.mpr (.inr ⟨_, hedge, rfl, rfl⟩)), hedge⟩

/-- The converged analysis of the program with a plugin is closed. -/
theorem converged_closed_plugin :
    pluginAnalyzer.settings.analysis.iterative = true ∧
      ∃ report,
        (pluginAnalyzer.analyze .unlimited (fun _ => (0 : Id Nat)) pluginProgram).1.report =
          .ok report ∧
        report.convergence = .converged ∧
        ClosedUnderCalls pluginAnalyzer .unlimited pluginProgram report := by
  obtain ⟨report, hreport, hconverged⟩ :=
    exists_converged pluginAnalyzer .unlimited (fun _ => (0 : Id Nat)) pluginProgram rfl rfl
      (by decide) (pluginAnalyzer.not_refuses_unlimited pluginProgram)
  exact ⟨rfl, report, hreport, hconverged,
    converged_closed pluginAnalyzer _ _ pluginProgram report rfl hreport hconverged⟩

end StringReach
