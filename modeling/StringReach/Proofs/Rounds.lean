import Mathlib.Data.List.Chain
import StringReach.Proofs.Convergence

/-!
# Rounds by hand

Iterations that are run by hand go on past a fixed one. What a round collects, resolves and learns
depends on the edges known before it and on nothing else. Edges are never forgotten, so each round
collects the methods of the round before, perhaps in another order. A fixed round leaves the edges
as they were, so the round after it begins where it began itself and repeats it
(`Plays.leads_to`). Both facts pass from neighbours to all pairs of rounds, because `Round.LeadsTo`
is transitive.
-/

namespace StringReach

/-- `LeadsTo earlier later` says how a round is related to the ones after it: nothing that it has
collected or learned is lost, and if it was fixed, it is repeated. -/
structure Round.LeadsTo (earlier later : Round) : Prop where
  discovered : earlier.discovered ⊆ later.discovered
  methods : earlier.methods ⊆ later.methods
  repeated : earlier.fixed = true → later.fixed = true ∧ later.methods = earlier.methods ∧
    later.discovered = earlier.discovered ∧ later.results.points = earlier.results.points

/-- What leads to a round leads to those that it leads to. -/
theorem Round.LeadsTo.trans {first second third : Round} (hfirst : first.LeadsTo second)
    (hsecond : second.LeadsTo third) : first.LeadsTo third where
  discovered := List.Subset.trans hfirst.discovered hsecond.discovered
  methods := List.Subset.trans hfirst.methods hsecond.methods
  repeated hfixed := by
    obtain ⟨hfixed, hmethods, hdiscovered, hpoints⟩ := hfirst.repeated hfixed
    obtain ⟨hfixed, hmethods', hdiscovered', hpoints'⟩ := hsecond.repeated hfixed
    exact ⟨hfixed, hmethods'.trans hmethods, hdiscovered'.trans hdiscovered,
      hpoints'.trans hpoints⟩

instance : IsTrans Round Round.LeadsTo where
  trans _ _ _ := Round.LeadsTo.trans

namespace Program

/-- A round by hand is an iteration that learns from its results, and it shows what it has done. -/
structure Plays (program : Program) (engine : Engine) (settings : AnalysisSettings)
    (iteration : Nat) (before after : Knowledge) (round : Round) : Prop where
  iterates : program.Iterates engine { settings with iterative := true } iteration before after
    round.results round.fixed
  methods : round.methods = program.reachableMethods before.discovered
  discovered : round.discovered = after.discovered.toList

/-- Rounds that are played one after the other, each from what the one before has left. -/
inductive Played (program : Program) (engine : Engine) (settings : AnalysisSettings) :
    List Nat → Knowledge → List Round → Knowledge → Prop where
  | nil (knowledge) : Played program engine settings [] knowledge [] knowledge
  | cons (iteration iterations before middle after round rounds) :
      program.Plays engine settings iteration before middle round →
      Played program engine settings iterations middle rounds after →
      Played program engine settings (iteration :: iterations) before (round :: rounds) after

variable {program : Program} {engine : Engine} {settings : AnalysisSettings} {iteration next : Nat}
  {before middle after : Knowledge} {round following : Round} {rounds : List Round}
  {iterations : List Nat}

/-! ## Edges that are known -/

/-- With more edges more methods can be reached. -/
theorem reachable_methods_subset {edges edges' : Std.ExtTreeSet CallEdge}
    (hedges : ∀ edge ∈ edges, edge ∈ edges') :
    program.reachableMethods edges ⊆ program.reachableMethods edges' := by
  intro method hmem
  rw [mem_reachable_methods, CallGraph.mem_reachable] at hmem ⊢
  obtain ⟨⟨entry, hentry, hcalls⟩, hfind⟩ := hmem
  rw [CallGraph.entries_of_program] at hentry
  have hmore : ∀ caller callee, (CallGraph.ofProgram program edges.toList).Calls caller callee →
      (CallGraph.ofProgram program edges'.toList).Calls caller callee := by
    intro caller callee hcall
    rw [CallGraph.calls_of_program] at hcall ⊢
    rcases hcall with hdirect | ⟨edge, hedge, hends⟩
    · exact .inl hdirect
    · rw [Std.ExtTreeSet.mem_toList] at hedge
      exact .inr ⟨edge, Std.ExtTreeSet.mem_toList.mpr (hedges edge hedge), hends⟩
  refine ⟨⟨entry, ?_, Relation.ReflTransGen.mono hmore _ _ hcalls⟩, hfind⟩
  rwa [CallGraph.entries_of_program]

/-- An iteration forgets no edge. -/
theorem Iterates.mem_of_mem {results : Results} {fixed : Bool} {edge : CallEdge}
    (hiterates : program.Iterates engine settings iteration before after results fixed)
    (hedge : edge ∈ before.discovered) : edge ∈ after.discovered := by
  obtain ⟨found, _, hdiscovered⟩ := hiterates.discovered
  rw [hdiscovered]
  exact Std.ExtTreeSet.mem_insertMany_list.mpr (.inl hedge)

/-! ## What an iteration depends on -/

/-- The number of an iteration does not matter to what it resolves. -/
theorem points_of_resolve_tracked {context : Context} {resolver : ResolverSettings}
    {results results' : Results}
    (hresolve : context.resolveTracked resolver iteration = .ok results)
    (hresolve' : context.resolveTracked resolver next = .ok results') :
    results'.points = results.points := by
  unfold Context.resolveTracked at hresolve hresolve'
  obtain ⟨points, hpoints, hresults⟩ := bind_eq_ok.mp hresolve
  obtain ⟨points', hpoints', hresults'⟩ := bind_eq_ok.mp hresolve'
  cases hpoints.symm.trans hpoints'
  cases hresults
  cases hresults'
  rfl

/-- What is learned depends on the resolved points only. -/
theorem learned_edges_of_points (program : Program) (engine : Engine) (settings : AnalysisSettings)
    (context : Context) {results results' : Results} (hpoints : results'.points = results.points) :
    program.learnedEdges engine settings context results' =
      program.learnedEdges engine settings context results := by
  obtain ⟨number, points⟩ := results
  obtain ⟨number', points'⟩ := results'
  cases hpoints
  rfl

/-- Two iterations that begin with the same edges do the same. -/
theorem Iterates.same {begun : Knowledge} {results results' : Results} {fixed fixed' : Bool}
    (hiterates : program.Iterates engine settings iteration before middle results fixed)
    (hiterates' : program.Iterates engine settings next begun after results' fixed')
    (hedges : begun.discovered = before.discovered) :
    results'.points = results.points ∧ after.discovered = middle.discovered := by
  have hcontext : after.context = middle.context := by
    have hcollected := hiterates'.collected
    rw [hedges, hiterates.collected] at hcollected
    exact (Except.ok.inj hcollected).symm
  have hresolved := hiterates'.resolved
  rw [hcontext] at hresolved
  have hpoints := points_of_resolve_tracked hiterates.resolved hresolved
  obtain ⟨found, hlearned, hdiscovered⟩ := hiterates.discovered
  obtain ⟨found', hlearned', hdiscovered'⟩ := hiterates'.discovered
  rw [hcontext, learned_edges_of_points _ _ _ _ hpoints, hlearned] at hlearned'
  cases hlearned'
  exact ⟨hpoints, by rw [hdiscovered, hdiscovered', hedges]⟩

/-! ## One round after the other -/

/-- A round leads to the next one. -/
theorem Plays.leads_to (hround : program.Plays engine settings iteration before middle round)
    (hnext : program.Plays engine settings next middle after following) :
    round.LeadsTo following where
  discovered := by
    rw [hround.discovered, hnext.discovered]
    intro edge hedge
    rw [Std.ExtTreeSet.mem_toList] at hedge ⊢
    exact hnext.iterates.mem_of_mem hedge
  methods := by
    rw [hround.methods, hnext.methods]
    exact reachable_methods_subset fun edge hedge => hround.iterates.mem_of_mem hedge
  repeated hfixed := by
    -- A fixed round has found no edge, so the next one begins with the same edges.
    have hedges : middle.discovered = before.discovered := by
      have hiterates := hround.iterates
      rw [hfixed] at hiterates
      exact hiterates.discovered_eq
    obtain ⟨hpoints, hsame⟩ := hround.iterates.same hnext.iterates hedges
    refine ⟨hnext.iterates.fixed_iff.mpr (by rw [hsame]), ?_, ?_, hpoints⟩
    · rw [hround.methods, hnext.methods, hedges]
    · rw [hround.discovered, hnext.discovered, hsame]

/-- A round by hand is an iteration of a run that learns, and shows what it has done. -/
theorem round_eq (program : Program) (engine : Engine) (settings : AnalysisSettings)
    (hiterative : settings.iterative = true) (iteration : Nat) (before : Knowledge) :
    program.round engine settings.resolver iteration before =
      match Run.iterate (program.driver engine) settings iteration { knowledge := before } with
      | .error error after => .error error after.knowledge
      | .ok (results, fixed) after =>
          .ok
            { methods := program.reachableMethods before.discovered
              results, fixed
              discovered := after.knowledge.discovered.toList }
            after.knowledge := by
  obtain ⟨context, labels, hcollect, _⟩ :=
    StringReach.exists_collected (program.nodup_reachable_methods before.discovered)
  have hsolve : (program.driver engine).solve (program.reachableMethods before.discovered)
      { before with context := .empty } = .ok () { before with context } :=
    driver_solve hcollect
  rw [iterate_eq engine settings iteration hcollect]
  simp only [round, bind, EStateM.bind, get, getThe, MonadStateOf.get, driver_prepare, driver_build,
    hsolve, learned_edges_of_iterative hiterative]
  delta EStateM.get
  dsimp only
  cases context.resolveTracked settings.resolver iteration with
  | error broken => rfl
  | ok results =>
      simp only [EStateM.bind, driver_is_fixed]
      cases program.reflectiveEdges engine context results with
      | error error => rfl
      | ok found => rfl

/-- A round is played, or it fails as an iteration does. -/
theorem round_outcome (program : Program) (engine : Engine) (settings : AnalysisSettings)
    (iteration : Nat) (before : Knowledge) :
    (∃ round after, program.round engine settings.resolver iteration before = .ok round after ∧
      program.Plays engine settings iteration before after round) ∨
    ∃ error after, program.round engine settings.resolver iteration before = .error error after ∧
      program.Fails engine { settings with iterative := true } iteration before after error := by
  have hround := program.round_eq engine { settings with iterative := true } rfl iteration before
  rcases program.iterate_outcome engine { settings with iterative := true } iteration
      { knowledge := before } with
    ⟨results, fixed, after, hiterate, hiterates⟩ | ⟨error, after, hiterate, hfails⟩
  · rw [hiterate] at hround
    exact .inl ⟨_, _, hround, hiterates, rfl, rfl⟩
  · rw [hiterate] at hround
    exact .inr ⟨_, _, hround, hfails⟩

/-! ## All rounds -/

/-- Neighbours in a series of rounds lead to each other, hence all pairs do. -/
theorem Played.leads_to (hplayed : program.Played engine settings iterations before rounds after) :
    rounds.Pairwise Round.LeadsTo := by
  rw [← List.isChain_iff_pairwise]
  induction hplayed with
  | nil => exact .nil
  | cons _ _ _ _ _ _ _ hround hrest ih =>
      cases hrest with
      | nil => exact .singleton _
      | cons _ _ _ _ _ _ _ hnext _ => exact .cons_cons (hround.leads_to hnext) ih

/-- There is a round for each iteration. -/
theorem Played.length_eq (hplayed : program.Played engine settings iterations before rounds after) :
    rounds.length = iterations.length := by
  induction hplayed with
  | nil => rfl
  | cons _ _ _ _ _ _ _ _ _ ih => rw [List.length_cons, List.length_cons, ih]

/-- Rounds are played one after the other until there is none left or one fails. -/
theorem rounds_outcome (program : Program) (engine : Engine) (settings : AnalysisSettings)
    (iterations : List Nat) (before : Knowledge) :
    ∃ played rest rounds after, iterations = played ++ rest ∧
      program.Played engine settings played before rounds after ∧
      ((rest = [] ∧
        (iterations.mapM fun iteration => program.round engine settings.resolver iteration) before =
          .ok rounds after) ∨
      ∃ iteration others error final, rest = iteration :: others ∧
        (iterations.mapM fun iteration => program.round engine settings.resolver iteration) before =
          .error error final ∧
        program.Fails engine { settings with iterative := true } iteration after final error) := by
  induction iterations generalizing before with
  | nil => exact ⟨[], [], [], before, rfl, .nil before, .inl ⟨rfl, rfl⟩⟩
  | cons iteration others ih =>
      rw [List.mapM_cons]
      simp only [bind, EStateM.bind]
      rcases program.round_outcome engine settings iteration before with
        ⟨round, middle, hround, hplays⟩ | ⟨error, final, hround, hfails⟩
      · obtain ⟨played, rest, rounds, after, rfl, hplayed, hending⟩ := ih middle
        refine ⟨iteration :: played, rest, round :: rounds, after, rfl,
          .cons _ _ _ _ _ _ _ hplays hplayed, ?_⟩
        rcases hending with ⟨hrest, hrounds⟩ | ⟨next, more, error, final, hrest, hrounds, hfails⟩
        · refine .inl ⟨hrest, ?_⟩
          simp only [hround, hrounds]
          rfl
        · refine .inr ⟨next, more, error, final, hrest, ?_, hfails⟩
          simp only [hround, hrounds]
      · refine ⟨[], iteration :: others, [], before, rfl, .nil before,
          .inr ⟨iteration, others, error, final, rfl, ?_, hfails⟩⟩
        simp only [hround]

/-- Every round that is not fixed finds an edge, and only possible ones are found. -/
theorem Played.edges (hplayed : program.Played engine settings iterations before rounds after)
    (hunsettled : ∀ round ∈ rounds, round.fixed = false)
    (hbefore : ∀ edge ∈ before.discovered, edge ∈ program.possibleEdges) :
    before.discovered.size + rounds.length ≤ after.discovered.size ∧
      ∀ edge ∈ after.discovered, edge ∈ program.possibleEdges := by
  induction hplayed with
  | nil => exact ⟨Nat.le_refl _, hbefore⟩
  | cons iteration iterations before middle after round rounds hround _ ih =>
      have hle := hround.iterates.size_le
      have hne : middle.discovered.size ≠ before.discovered.size := by
        intro hsize
        cases (hunsettled round (by simp)).symm.trans (hround.iterates.fixed_iff.mpr hsize)
      obtain ⟨hsize, hpossible⟩ :=
        ih (fun other hother => hunsettled other (List.mem_cons_of_mem _ hother))
          (hround.iterates.possible hbefore)
      rw [List.length_cons]
      exact ⟨by omega, hpossible⟩

/-- Of more rounds than there are pairs of a reflective call and a method, one is fixed. -/
theorem Played.exists_fixed
    (hplayed : program.Played engine settings iterations before rounds after)
    (hbefore : ∀ edge ∈ before.discovered, edge ∈ program.possibleEdges)
    (hlength : program.reflectCount * program.methods.length < rounds.length) :
    ∃ round ∈ rounds, round.fixed = true := by
  by_contra hnone
  have hunsettled : ∀ round ∈ rounds, round.fixed = false := by
    intro round hround
    cases hfixed : round.fixed with
    | false => rfl
    | true => exact absurd ⟨round, hround, hfixed⟩ hnone
  obtain ⟨hsize, hpossible⟩ := hplayed.edges hunsettled hbefore
  have hbound := size_le_possible_edges hpossible
  omega

end Program

/-- When calls are not followed, rounds are played by hand, each from what the one before has left,
until all are done or the engine refuses a string of the next one. No round loses an edge or a
method of a round before it, and once a round is fixed all later rounds are: they collect the same
methods in the same order, know the same edges and resolve the same points. -/
theorem rounds_monotone_stable (program : Program) (engine : Engine) (settings : AnalysisSettings)
    (count : Nat) (start : Knowledge) (hcalls : settings.followCalls = false) :
    ∃ rounds final, program.Played engine settings (List.range rounds.length) start rounds final ∧
      rounds.Pairwise Round.LeadsTo ∧
      ((program.rounds engine settings.resolver count start = .ok rounds final ∧
          rounds.length = count) ∨
        ∃ source reason results after, rounds.length < count ∧
          program.rounds engine settings.resolver count start =
            .error (.invalidPattern source reason) after ∧
          Context.empty.collectAll (program.reachableMethods final.discovered) =
            .ok after.context ∧
          after.context.resolveTracked settings.resolver rounds.length = .ok results ∧
          after.context.Refuses engine results source reason) := by
  obtain ⟨played, rest, rounds, final, hsplit, hplayed, hending⟩ :=
    program.rounds_outcome engine settings (List.range count) start
  have hlength := hplayed.length_eq
  have hcount : count = played.length + rest.length := by
    rw [← List.length_append, ← hsplit, List.length_range]
  rw [hcount, List.range_add] at hsplit
  obtain ⟨hbegin, hend⟩ := List.append_inj hsplit List.length_range
  rw [← hbegin, ← hlength] at hplayed
  refine ⟨rounds, final, hplayed, hplayed.leads_to, ?_⟩
  rcases hending with ⟨rfl, hrounds⟩ | ⟨next, others, error, after, rfl, hrounds, hfails⟩
  · exact .inl ⟨hrounds, by rw [hlength, hcount, List.length_nil, Nat.add_zero]⟩
  · -- The round that fails is the one after those that were played.
    obtain rfl : rounds.length = next := by
      rw [List.length_cons, List.range_succ_eq_map, List.map_cons] at hend
      rw [hlength]
      exact (List.cons.inj hend).1
    obtain ⟨_, results, source, reason, rfl, hcollect, hresolve, hrefuses⟩ := hfails.refuses hcalls
    refine .inr ⟨source, reason, results, after, ?_, hrounds, hcollect, hresolve, hrefuses⟩
    rw [hcount, hlength, List.length_cons]
    omega

/-- Of four rounds over the program with a plugin one is fixed, so that the later ones repeat it. -/
theorem rounds_monotone_stable_plugin :
    ({} : AnalysisSettings).followCalls = false ∧
      ∃ rounds final,
        pluginProgram.rounds .unlimited ({} : AnalysisSettings).resolver 4 {} = .ok rounds final ∧
        rounds.length = 4 ∧ (∃ round ∈ rounds, round.fixed = true) ∧
        rounds.Pairwise Round.LeadsTo := by
  obtain ⟨rounds, final, hplayed, hpairs, hending⟩ :=
    rounds_monotone_stable pluginProgram .unlimited {} 4 {} rfl
  rcases hending with ⟨hrounds, hlength⟩ | ⟨_, _, _, _, _, _, _, _, hrefuses⟩
  · have hbound : pluginProgram.reflectCount * pluginProgram.methods.length < rounds.length := by
      rw [hlength]
      decide
    have hfixed := hplayed.exists_fixed
      (fun edge hedge => absurd hedge Std.ExtTreeSet.not_mem_empty) hbound
    exact ⟨rfl, rounds, final, hrounds, hlength, hfixed, hpairs⟩
  · exact absurd hrefuses Context.not_refuses_unlimited

end StringReach
