import Mathlib.Order.Bounds.Defs
import StringReach.Proofs.Reachability

/-!
# Methods are listed nearest first

The distance of a method is the least number of calls that lead to it from an entry point. While a
graph is visited, each queued name can be labelled with a number of calls that lead to it, and the
labels never decrease along the visited names and the queue (`Visiting`). A name that is taken from
the queue for the first time has its distance as label (`Visiting.distance`), so the names are
listed in the order of their distances (`reachable_labelled`).
-/

namespace StringReach

/-- `Away roots edge count name` says that so many edges lead from a root to the name. -/
inductive Away (roots : List String) (edge : String → String → Prop) : Nat → String → Prop where
  | root (name) : name ∈ roots → Away roots edge 0 name
  | step (count name next) : Away roots edge count name → edge name next →
      Away roots edge (count + 1) next

/-- The distance of a name is the least number of edges that lead to it from a root. -/
def IsDistance (roots : List String) (edge : String → String → Prop) (name : String)
    (count : Nat) : Prop :=
  IsLeast {steps | Away roots edge steps name} count

namespace CallGraph

/-- A name is visited, or it is queued with a label up to a bound. -/
def Scheduled (visited queue : List (String × Nat)) (name : String) (bound : Nat) : Prop :=
  name ∈ visited.map Prod.fst ∨ ∃ label ≤ bound, (name, label) ∈ queue

/-- What holds while a graph is visited, with a label for each visited and each queued name. Visited
names have their distance as label, and queued ones the length of some way to them. Entry points and
callees of visited names are scheduled. -/
structure Visiting (graph : CallGraph) (visited queue : List (String × Nat)) : Prop where
  exact : ∀ item ∈ visited, IsDistance graph.entries graph.Calls item.1 item.2
  away : ∀ item ∈ queue, Away graph.entries graph.Calls item.2 item.1
  ordered : (visited ++ queue).Pairwise fun item other => item.2 ≤ other.2
  narrow : ∀ item ∈ queue, ∀ other ∈ queue, other.2 ≤ item.2 + 1
  entries : ∀ name ∈ graph.entries, Scheduled visited queue name 0
  closed : ∀ item ∈ visited, ∀ callee, graph.Calls item.1 callee →
    Scheduled visited queue callee (item.2 + 1)

variable {graph : CallGraph} {visited visited' queue queue' : List (String × Nat)}
  {name other : String} {label count bound : Nat}

/-- A scheduled name stays so when the first of the queue is known to be visited. -/
theorem Scheduled.next (hscheduled : Scheduled visited ((name, label) :: queue) other bound)
    (hname : name ∈ visited'.map Prod.fst) (hvisited : visited ⊆ visited')
    (hqueue : queue ⊆ queue') : Scheduled visited' queue' other bound := by
  rcases hscheduled with hseen | ⟨steps, hsteps, hqueued⟩
  · exact .inl (List.map_subset Prod.fst hvisited hseen)
  · rcases List.mem_cons.mp hqueued with heq | hqueued
    · cases heq
      exact .inl hname
    · exact .inr ⟨steps, hsteps, hqueue hqueued⟩

namespace Visiting

/-- At first the entry points are queued. -/
theorem start (graph : CallGraph) :
    graph.Visiting [] (graph.entries.map fun name => (name, 0)) where
  exact item hmem := by cases hmem
  away item hmem := by
    obtain ⟨name, hname, heq⟩ := List.mem_map.mp hmem
    subst heq
    exact .root name hname
  ordered := by
    rw [List.nil_append, List.pairwise_map]
    exact List.pairwise_of_forall fun _ _ => Nat.le_refl 0
  narrow item _ other hother := by
    obtain ⟨name, _, heq⟩ := List.mem_map.mp hother
    subst heq
    exact Nat.zero_le _
  entries name hname := .inr ⟨0, Nat.le_refl 0, List.mem_map_of_mem hname⟩
  closed item hmem := by cases hmem

/-- A way to a name that is not visited is at least as long as some label of the queue. -/
theorem exists_queued (hvisiting : graph.Visiting visited queue)
    (haway : Away graph.entries graph.Calls count name) :
    name ∈ visited.map Prod.fst ∨ ∃ item ∈ queue, item.2 ≤ count := by
  induction haway with
  | root name hname =>
      rcases hvisiting.entries name hname with hseen | ⟨label, hlabel, hqueued⟩
      · exact .inl hseen
      · exact .inr ⟨(name, label), hqueued, hlabel⟩
  | step count name next haway hcall ih =>
      rcases ih with hseen | ⟨item, hitem, hle⟩
      · -- The name has its distance as label, and this way to it is no shorter.
        obtain ⟨item, hitem, heq⟩ := List.mem_map.mp hseen
        subst heq
        have hleast : item.2 ≤ count := (hvisiting.exact item hitem).2 haway
        rcases hvisiting.closed item hitem next hcall with hnext | ⟨label, hlabel, hqueued⟩
        · exact .inl hnext
        · refine .inr ⟨(next, label), hqueued, ?_⟩
          show label ≤ count + 1
          omega
      · exact .inr ⟨item, hitem, by omega⟩

/-- The labels of the queue begin with the least. -/
theorem label_le (hvisiting : graph.Visiting visited ((name, label) :: queue)) :
    ∀ item ∈ (name, label) :: queue, label ≤ item.2 := by
  have hqueue := (List.pairwise_append.mp hvisiting.ordered).2.1
  intro item hmem
  rcases List.mem_cons.mp hmem with heq | hmem
  · subst heq
    exact Nat.le_refl label
  · exact (List.pairwise_cons.mp hqueue).1 item hmem

/-- The first name of the queue, if it is not visited, has its distance as label. -/
theorem distance (hvisiting : graph.Visiting visited ((name, label) :: queue))
    (hnew : name ∉ visited.map Prod.fst) : IsDistance graph.entries graph.Calls name label := by
  refine ⟨hvisiting.away (name, label) (by simp), ?_⟩
  intro steps haway
  rcases hvisiting.exists_queued haway with hseen | ⟨item, hitem, hle⟩
  · exact absurd hseen hnew
  · exact Nat.le_trans (hvisiting.label_le item hitem) hle

/-- A name that is visited already is skipped. -/
theorem skip (hvisiting : graph.Visiting visited ((name, label) :: queue))
    (hseen : name ∈ visited.map Prod.fst) : graph.Visiting visited queue where
  exact := hvisiting.exact
  away item hmem := hvisiting.away item (List.mem_cons_of_mem _ hmem)
  ordered :=
    hvisiting.ordered.sublist ((List.sublist_cons_self _ queue).append_left visited)
  narrow item hmem other hother :=
    hvisiting.narrow item (List.mem_cons_of_mem _ hmem) other (List.mem_cons_of_mem _ hother)
  entries entry hentry :=
    (hvisiting.entries entry hentry).next hseen (List.Subset.refl _) (List.Subset.refl _)
  closed item hmem callee hcall :=
    (hvisiting.closed item hmem callee hcall).next hseen (List.Subset.refl _)
      (List.Subset.refl _)

/-- When a name is visited, its callees are queued one call further away. -/
theorem enter (hvisiting : graph.Visiting visited ((name, label) :: queue))
    (hnew : name ∉ visited.map Prod.fst) :
    graph.Visiting (visited ++ [(name, label)])
      (queue ++ (graph.callees name).map fun callee => (callee, label + 1)) := by
  have hdistance := hvisiting.distance hnew
  -- All labels of the new queue are `label` or `label + 1`, the latter at its end.
  have hrest : ∀ item ∈ queue, label ≤ item.2 ∧ item.2 ≤ label + 1 := by
    intro item hmem
    have hqueued := List.mem_cons_of_mem (name, label) hmem
    exact ⟨hvisiting.label_le item hqueued, hvisiting.narrow (name, label) (by simp) item hqueued⟩
  have hcallee : ∀ item ∈ (graph.callees name).map fun callee => (callee, label + 1),
      item.2 = label + 1 ∧ graph.Calls name item.1 := by
    intro item hmem
    obtain ⟨callee, hcall, heq⟩ := List.mem_map.mp hmem
    subst heq
    exact ⟨rfl, hcall⟩
  have hqueue : ∀ item ∈ queue ++ (graph.callees name).map fun callee => (callee, label + 1),
      label ≤ item.2 ∧ item.2 ≤ label + 1 := by
    intro item hmem
    rcases List.mem_append.mp hmem with hmem | hmem
    · exact hrest item hmem
    · have heq := (hcallee item hmem).1
      omega
  have hname : name ∈ (visited ++ [(name, label)]).map Prod.fst := by simp
  have hvisited : visited ⊆ visited ++ [(name, label)] := List.subset_append_left _ _
  refine ⟨?_, ?_, ?_, ?_, ?_, ?_⟩
  · intro item hmem
    rcases List.mem_append.mp hmem with hmem | hmem
    · exact hvisiting.exact item hmem
    · rw [List.mem_singleton.mp hmem]
      exact hdistance
  · intro item hmem
    rcases List.mem_append.mp hmem with hmem | hmem
    · exact hvisiting.away item (List.mem_cons_of_mem _ hmem)
    · obtain ⟨hlabel, hcall⟩ := hcallee item hmem
      rw [hlabel]
      exact .step label name item.1 hdistance.1 hcall
  · have hbefore := List.pairwise_append.mp hvisiting.ordered
    rw [List.append_assoc, List.singleton_append, ← List.cons_append, ← List.append_assoc]
    refine List.pairwise_append.mpr ⟨hvisiting.ordered, ?_, ?_⟩
    · exact List.pairwise_map.mpr (List.pairwise_of_forall fun _ _ => Nat.le_refl _)
    · intro item hmem other hother
      have hlabel := (hcallee other hother).1
      rcases List.mem_append.mp hmem with hmem | hmem
      · have hle : item.2 ≤ label := hbefore.2.2 item hmem (name, label) (by simp)
        omega
      · rcases List.mem_cons.mp hmem with heq | hmem
        · subst heq
          show label ≤ other.2
          omega
        · have hle := hrest item hmem
          omega
  · intro item hmem other hother
    have hitem := hqueue item hmem
    have hother := hqueue other hother
    omega
  · intro entry hentry
    exact (hvisiting.entries entry hentry).next hname hvisited (List.subset_append_left _ _)
  · intro item hmem callee hcall
    rcases List.mem_append.mp hmem with hmem | hmem
    · exact (hvisiting.closed item hmem callee hcall).next hname hvisited
        (List.subset_append_left _ _)
    · rw [List.mem_singleton.mp hmem] at hcall ⊢
      exact .inr ⟨label + 1, Nat.le_refl _, List.mem_append_right _ (List.mem_map_of_mem hcall)⟩

/-- The names that are visited in the end can be labelled with their distances, in order. -/
theorem visit (hvisiting : graph.Visiting visited queue) :
    ∃ labelled : List (String × Nat),
      graph.visit (visited.map Prod.fst) (queue.map Prod.fst) = labelled.map Prod.fst ∧
      graph.Visiting labelled [] := by
  generalize hnames : visited.map Prod.fst = names
  generalize hqueued : queue.map Prod.fst = queued
  fun_induction CallGraph.visit graph names queued generalizing visited queue with
  | case1 names =>
      obtain rfl := List.map_eq_nil_iff.mp hqueued
      exact ⟨visited, hnames.symm, hvisiting⟩
  | case2 names name queued hseen ih =>
      obtain ⟨⟨_, label⟩, rest, rfl, rfl, rfl⟩ := List.map_eq_cons_iff.mp hqueued
      subst hnames
      exact ih (hvisiting.skip hseen) rfl rfl
  | case3 names name queued hnew ih =>
      obtain ⟨⟨_, label⟩, rest, rfl, rfl, rfl⟩ := List.map_eq_cons_iff.mp hqueued
      subst hnames
      refine ih (hvisiting.enter hnew) (by simp) ?_
      simp [Function.comp_def]

end Visiting

/-- The reachable names can be labelled with their distances, and the labels never decrease. -/
theorem reachable_labelled (graph : CallGraph) :
    ∃ labelled : List (String × Nat), graph.reachable = labelled.map Prod.fst ∧
      (∀ item ∈ labelled, IsDistance graph.entries graph.Calls item.1 item.2) ∧
      labelled.Pairwise fun item other => item.2 ≤ other.2 := by
  obtain ⟨labelled, hvisit, hdone⟩ := (Visiting.start graph).visit
  refine ⟨labelled, ?_, hdone.exact, by simpa using hdone.ordered⟩
  rw [reachable, ← hvisit, List.map_map]
  simp [Function.comp_def]

end CallGraph

namespace Program

/-- A method of the caller's name has a statement that invokes the callee. -/
def Invokes (program : Program) (caller callee : String) : Prop :=
  ∃ method ∈ program.methods, method.name = caller ∧
    ∃ dest args, Statement.invoke callee dest args ∈ method.body

/-- One of some further edges goes from the caller to the callee. -/
def Discovered (edges : List CallEdge) (caller callee : String) : Prop :=
  ∃ edge ∈ edges, edge.caller = caller ∧ edge.callee = callee

/-- A program with further edges has an edge. -/
def HasEdge (program : Program) (edges : List CallEdge) (caller callee : String) : Prop :=
  program.Invokes caller callee ∨ Discovered edges caller callee

/-- The methods that a method calls are those that its statements invoke. -/
theorem mem_callees {method : Method} {callee : String} :
    callee ∈ method.callees ↔ ∃ dest args, Statement.invoke callee dest args ∈ method.body := by
  unfold Method.callees
  rw [List.mem_filterMap]
  constructor
  · intro hmem
    obtain ⟨statement, hbody, hcallee⟩ := hmem
    cases statement with
    | invoke other dest args =>
        cases hcallee
        exact ⟨dest, args, hbody⟩
    | const | assign | concat | append | phi | param | unknown | storeField | loadField | reflect =>
        cases hcallee
  · intro hinvoke
    obtain ⟨dest, args, hbody⟩ := hinvoke
    exact ⟨_, hbody, rfl⟩

/-- The graph of a program has the edges of the program. -/
theorem calls_eq_has_edge (program : Program) (edges : List CallEdge) :
    (CallGraph.ofProgram program edges).Calls = program.HasEdge edges := by
  funext caller callee
  rw [CallGraph.calls_of_program]
  simp only [mem_callees, and_comm, HasEdge, Invokes, Discovered]

/-- The reachable names of a program with some further edges are listed without duplicates. They are
exactly the names to which edges lead from a root, and the distance from the roots never decreases
along the list. Its edges are the calls of all methods of a name and the further edges; a name that
no method has can be listed, and then only further edges lead on from it. -/
theorem reachable_exact_breadth_first (program : Program) (edges : List CallEdge) :
    let graph := CallGraph.ofProgram program edges
    graph.reachable.Nodup ∧
    (∀ name, name ∈ graph.reachable ↔
      ∃ root ∈ program.roots, Relation.ReflTransGen (program.HasEdge edges) root name) ∧
    graph.reachable.Pairwise (fun name other => ∃ near far,
      IsDistance program.roots (program.HasEdge edges) name near ∧
      IsDistance program.roots (program.HasEdge edges) other far ∧ near ≤ far) ∧
    (∀ caller callee, callee ∈ graph.callees caller ↔ program.HasEdge edges caller callee) ∧
    ∀ name, (∀ method ∈ program.methods, method.name ≠ name) →
      ∀ callee, callee ∈ graph.callees name ↔ Discovered edges name callee := by
  intro graph
  have hcalls : graph.Calls = program.HasEdge edges := program.calls_eq_has_edge edges
  have hroots : graph.entries = program.roots := CallGraph.entries_of_program program edges
  have hcallees : ∀ caller callee,
      callee ∈ graph.callees caller ↔ program.HasEdge edges caller callee :=
    fun caller callee => iff_of_eq (congrFun (congrFun hcalls caller) callee)
  refine ⟨CallGraph.nodup_reachable, ?_, ?_, hcallees, ?_⟩
  · intro name
    rw [CallGraph.mem_reachable, hroots, hcalls]
  · obtain ⟨labelled, hlabelled, hexact, hordered⟩ := graph.reachable_labelled
    rw [hroots, hcalls] at hexact
    rw [hlabelled, List.pairwise_map]
    refine hordered.imp_of_mem ?_
    intro item other hitem hother hle
    exact ⟨item.2, other.2, hexact item hitem, hexact other hother, hle⟩
  · intro name hundefined callee
    rw [hcallees]
    constructor
    · intro hedge
      rcases hedge with ⟨method, hmethod, hname, _⟩ | hdiscovered
      · exact absurd hname (hundefined method hmethod)
      · exact hdiscovered
    · exact .inr

/-- Two methods of one name, one of which calls a method that the program does not have. -/
def sharedName : Program where
  entryPoints := ["A.run"]
  methods :=
    [{ name := "A.run", body := [.invoke "A.step" none []] },
      { name := "A.run", body := [.invoke "Lib.call" none []] },
      { name := "A.step", body := [.invoke "A.run" none []] }, { name := "A.hidden" }]

/-- An edge from the method that the program does not have. -/
def sharedNameEdges : List CallEdge :=
  [{ caller := "Lib.call", callee := "A.hidden", origin := .direct }]

/-- The calls of both methods of the shared name, with the further edge. -/
def sharedNameGraph : CallGraph := .ofProgram sharedName sharedNameEdges

/-- The method that the program does not have is reached, and so is what it leads to. -/
theorem reachable_exact_breadth_first_shared_name :
    (∀ method ∈ sharedName.methods, method.name ≠ "Lib.call") ∧
    sharedNameGraph.reachable.Nodup ∧ "Lib.call" ∈ sharedNameGraph.reachable ∧
    "A.hidden" ∈ sharedNameGraph.reachable ∧
    ∀ callee, callee ∈ sharedNameGraph.callees "Lib.call" ↔
      Discovered sharedNameEdges "Lib.call" callee := by
  have hundefined : ∀ method ∈ sharedName.methods, method.name ≠ "Lib.call" := by decide
  obtain ⟨hnodup, hmem, _, _, hcallees⟩ :=
    reachable_exact_breadth_first sharedName sharedNameEdges
  have hcall : sharedName.HasEdge sharedNameEdges "A.run" "Lib.call" :=
    .inl ⟨_, .tail _ (.head _), rfl, none, [], by decide⟩
  have hedge : sharedName.HasEdge sharedNameEdges "Lib.call" "A.hidden" :=
    .inr ⟨_, .head _, rfl, rfl⟩
  have hroot : "A.run" ∈ sharedName.roots := by decide
  exact ⟨hundefined, hnodup, (hmem _).mpr ⟨"A.run", hroot, .single hcall⟩,
    (hmem _).mpr ⟨"A.run", hroot, .tail (.single hcall) hedge⟩, hcallees "Lib.call" hundefined⟩

end Program

end StringReach
