import StringReach.Analysis.Discovery
import StringReach.Proofs.Layout
import StringReach.Proofs.PatternInstances
import StringReach.Proofs.Resolution

/-!
# What the strings at reflective calls select

Every string at an operand of a reflective call is read as a pattern, also one that says nothing. If
the engine refuses one of these patterns there are no edges at all, and the error names the first
that it refuses (`Context.Refuses`). Which patterns are read depends on the calls and the strings,
and not on the program whose methods are selected, so two programs fail alike
(`Program.reflective_edges_error_congr`).
-/

namespace StringReach

/-- The strings at the operands of a reflective call, as they are read as patterns. -/
def Results.sourcesAt (results : Results) (site : Point) : List String :=
  (results.stringsAt (site.operand Point.classSlot)).map Spelling.plainClass ++
    (results.stringsAt (site.operand Point.memberSlot)).map Spelling.plainName

/-- The engine refuses a string at one of the reflective calls of a context, for a reason. -/
def Context.Refuses (context : Context) (engine : Engine) (results : Results)
    (source reason : String) : Prop :=
  ∃ site kind, context.sites[site]? = some kind ∧ source ∈ results.sourcesAt site ∧
    engine.compile (Pattern.expression engine source) = .error reason

variable {engine : Engine}

/-! ## Patterns -/

namespace Results

variable {results : Results} {point : Point} {plain : String → String} {patterns : List Pattern}
  {pattern : Pattern} {error : Error}

/-- The patterns at a point are those of its strings in their plain spelling that have literal
text. -/
theorem mem_patterns_at (hpatterns : results.patternsAt engine point plain = .ok patterns) :
    pattern ∈ patterns ↔
      ∃ text ∈ results.stringsAt point, Pattern.compile engine (plain text) = .ok pattern ∧
        Wildcard.isUnconstrained (plain text) = false := by
  obtain ⟨read, hread, hkept⟩ := bind_eq_ok.mp hpatterns
  cases hkept
  rw [List.mem_filter, mem_of_map_ok hread, Bool.not_eq_true', Pattern.isUnconstrained]
  constructor
  · rintro ⟨⟨text, htext, hcompile⟩, hliteral⟩
    rw [Pattern.source_of_compile hcompile] at hliteral
    exact ⟨text, htext, hcompile, hliteral⟩
  · rintro ⟨text, htext, hcompile, hliteral⟩
    rw [Pattern.source_of_compile hcompile]
    exact ⟨⟨text, htext, hcompile⟩, hliteral⟩

/-- Where there are patterns, every string was read as one. -/
theorem exists_compile_of_patterns_at
    (hpatterns : results.patternsAt engine point plain = .ok patterns) {text : String}
    (htext : text ∈ results.stringsAt point) :
    ∃ pattern, Pattern.compile engine (plain text) = .ok pattern := by
  obtain ⟨read, hread, _⟩ := bind_eq_ok.mp hpatterns
  obtain ⟨pattern, _, hcompile⟩ := exists_partner (forall₂_of_map_ok hread) htext
  exact ⟨pattern, hcompile⟩

/-- Where there are no patterns, a string was refused. -/
theorem exists_error_of_patterns_at
    (hpatterns : results.patternsAt engine point plain = .error error) :
    ∃ text ∈ results.stringsAt point, Pattern.compile engine (plain text) = .error error := by
  rcases bind_eq_error.mp hpatterns with hread | ⟨_, _, hkept⟩
  · exact exists_of_map_error hread
  · cases hkept

end Results

/-! ## Targets and edges -/

namespace Program

variable {program program' : Program} {context context' : Context} {results : Results}
  {site : Point} {kind : ReflectionKind} {edges : List CallEdge} {error : Error}

/-- The targets of a reflective call are the methods that the patterns of its operands select. -/
theorem targets_eq_ok_iff {targets : List Method} :
    program.targetsOf engine results site kind = .ok targets ↔
      ∃ classes members,
        results.patternsAt engine (site.operand Point.classSlot) Spelling.plainClass =
          .ok classes ∧
        results.patternsAt engine (site.operand Point.memberSlot) Spelling.plainName =
          .ok members ∧
        targets = program.methods.filter fun method => kind.selects classes members method := by
  rw [targetsOf, bind_eq_ok]
  simp only [bind_eq_ok]
  constructor
  · rintro ⟨classes, hclasses, members, hmembers, htargets⟩
    cases htargets
    exact ⟨classes, members, hclasses, hmembers, rfl⟩
  · rintro ⟨classes, members, hclasses, hmembers, rfl⟩
    exact ⟨classes, hclasses, members, hmembers, rfl⟩

/-- There are no edges from a call for which there are no patterns. The program does not matter. -/
theorem edges_from_eq_error_iff :
    program.edgesFrom engine results site kind = .error error ↔
      results.patternsAt engine (site.operand Point.classSlot) Spelling.plainClass =
        .error error ∨
      (∃ classes,
        results.patternsAt engine (site.operand Point.classSlot) Spelling.plainClass =
          .ok classes) ∧
        results.patternsAt engine (site.operand Point.memberSlot) Spelling.plainName =
          .error error := by
  simp only [edgesFrom, targetsOf, bind_eq_error, pure, Except.pure, reduceCtorEq, and_false,
    exists_false, or_false, exists_and_right]

/-- The edges from a reflective call lead to its targets. -/
theorem edges_from_eq_ok_iff :
    program.edgesFrom engine results site kind = .ok edges ↔
      ∃ targets, program.targetsOf engine results site kind = .ok targets ∧
        edges = targets.map fun target =>
          { caller := site.method, callee := target.name, origin := .reflective site } := by
  rw [edgesFrom, bind_eq_ok]
  simp only [pure, Except.pure, Except.ok.injEq, eq_comm]

/-- The edges that strings give go from a reflective call to one of its targets. -/
theorem mem_reflective_edges (hedges : program.reflectiveEdges engine context results = .ok edges)
    {edge : CallEdge} :
    edge ∈ edges ↔
      ∃ site kind, context.sites[site]? = some kind ∧
        ∃ targets, program.targetsOf engine results site kind = .ok targets ∧
          ∃ target ∈ targets, edge =
            { caller := site.method, callee := target.name, origin := .reflective site } := by
  obtain ⟨parts, hparts, hflat⟩ := bind_eq_ok.mp hedges
  cases hflat
  simp only [List.mem_flatten, mem_of_map_ok hparts, Prod.exists,
    Std.ExtTreeMap.mem_toList_iff_getElem?_eq_some, edges_from_eq_ok_iff]
  constructor
  · rintro ⟨_, ⟨site, kind, hsite, targets, htargets, rfl⟩, hedge⟩
    obtain ⟨target, htarget, rfl⟩ := List.mem_map.mp hedge
    exact ⟨site, kind, hsite, targets, htargets, target, htarget, rfl⟩
  · rintro ⟨site, kind, hsite, targets, htargets, target, htarget, rfl⟩
    exact ⟨_, ⟨site, kind, hsite, targets, htargets, rfl⟩, List.mem_map_of_mem htarget⟩

/-- Where strings give edges, each reflective call has its targets. -/
theorem exists_targets_of_reflective_edges
    (hedges : program.reflectiveEdges engine context results = .ok edges)
    (hsite : context.sites[site]? = some kind) :
    ∃ targets, program.targetsOf engine results site kind = .ok targets := by
  obtain ⟨parts, hparts, _⟩ := bind_eq_ok.mp hedges
  obtain ⟨part, _, hpart⟩ := exists_partner (forall₂_of_map_ok hparts)
    (Std.ExtTreeMap.mem_toList_iff_getElem?_eq_some.mpr hsite)
  obtain ⟨targets, htargets, _⟩ := edges_from_eq_ok_iff.mp hpart
  exact ⟨targets, htargets⟩

/-! ## Refusals -/

/-- Where strings give no edges, the engine refuses one of them, which the error names. -/
theorem refuses_of_reflective_edges
    (hedges : program.reflectiveEdges engine context results = .error error) :
    ∃ source reason, error = .invalidPattern source reason ∧
      context.Refuses engine results source reason := by
  rcases bind_eq_error.mp hedges with hparts | ⟨_, _, hflat⟩
  · obtain ⟨⟨site, kind⟩, hmem, hpart⟩ := exists_of_map_error hparts
    have hsite := Std.ExtTreeMap.mem_toList_iff_getElem?_eq_some.mp hmem
    obtain ⟨source, hsource, hcompile⟩ :
        ∃ source ∈ results.sourcesAt site, Pattern.compile engine source = .error error := by
      rcases edges_from_eq_error_iff.mp hpart with hpatterns | ⟨_, hpatterns⟩
      · obtain ⟨text, htext, hcompile⟩ := Results.exists_error_of_patterns_at hpatterns
        exact ⟨_, List.mem_append_left _ (List.mem_map_of_mem htext), hcompile⟩
      · obtain ⟨text, htext, hcompile⟩ := Results.exists_error_of_patterns_at hpatterns
        exact ⟨_, List.mem_append_right _ (List.mem_map_of_mem htext), hcompile⟩
    obtain ⟨reason, hrefused, rfl⟩ := Pattern.compile_eq_error_iff.mp hcompile
    exact ⟨source, reason, rfl, site, kind, hsite, hsource, hrefused⟩
  · cases hflat

/-- Where strings give edges, the engine refuses none of them. -/
theorem not_refuses_of_reflective_edges
    (hedges : program.reflectiveEdges engine context results = .ok edges)
    (source reason : String) : ¬ context.Refuses engine results source reason := by
  rintro ⟨site, kind, hsite, hsource, hrefused⟩
  obtain ⟨targets, htargets⟩ := exists_targets_of_reflective_edges hedges hsite
  obtain ⟨classes, members, hclasses, hmembers, _⟩ := targets_eq_ok_iff.mp htargets
  obtain ⟨pattern, hcompile⟩ : ∃ pattern, Pattern.compile engine source = .ok pattern := by
    rcases List.mem_append.mp hsource with hclass | hmember
    · obtain ⟨text, htext, rfl⟩ := List.mem_map.mp hclass
      exact Results.exists_compile_of_patterns_at hclasses htext
    · obtain ⟨text, htext, rfl⟩ := List.mem_map.mp hmember
      exact Results.exists_compile_of_patterns_at hmembers htext
  have hfails := Pattern.compile_eq_error_iff.mpr ⟨reason, hrefused, rfl⟩
  cases hcompile.symm.trans hfails

/-- At the same calls and with the same strings, any two programs fail alike. -/
theorem reflective_edges_error_congr (hsites : context.sites = context'.sites) :
    program.reflectiveEdges engine context results = .error error ↔
      program'.reflectiveEdges engine context' results = .error error := by
  have hparts : ∀ entry ∈ context'.sites.toList, ∀ error,
      program.edgesFrom engine results entry.1 entry.2 = .error error ↔
        program'.edgesFrom engine results entry.1 entry.2 = .error error := by
    intro entry _ error
    rw [edges_from_eq_error_iff, edges_from_eq_error_iff]
  simp only [reflectiveEdges, bind_eq_error, pure, Except.pure, reduceCtorEq, and_false,
    exists_false, or_false, hsites]
  exact map_error_congr hparts error

end Program

/-! ## An engine that refuses nothing -/

/-- The small engine without its limit. What it cannot read is found everywhere. -/
def Engine.unlimited : Engine where
  escape := standard.escape
  compile expression :=
    .ok fun text => (table text.toList ((parts? expression.toList).getD [])).any id

/-- Without a limit no string is refused. -/
theorem Context.not_refuses_unlimited {context : Context} {results : Results}
    {source reason : String} : ¬ context.Refuses .unlimited results source reason := by
  rintro ⟨_, _, _, _, hrefused⟩
  cases hrefused

end StringReach
