import Mathlib.Data.List.Nodup
import Mathlib.Logic.Relation
import StringReach.Analysis.Discovery

/-!
# Reachable methods

Visiting a call graph from its entry points lists the methods that calls lead to, each once
(`CallGraph.mem_reachable`, `CallGraph.nodup_reachable`). Hence the methods that an iteration
collects have different names, and which methods they are depends neither on the order of the
methods of a program nor on that of its entry points (`Program.Reordered.mem_reachable_methods`).
-/

namespace StringReach

namespace CallGraph

/-- A call graph has an edge. -/
def Calls (graph : CallGraph) (caller callee : String) : Prop :=
  callee ∈ graph.callees caller

variable {graph : CallGraph} {visited queue : List String} {name : String}

/-! ## Visiting a graph -/

/-- What is visited stays visited. -/
theorem mem_visit_of_visited (hmem : name ∈ visited) : name ∈ graph.visit visited queue := by
  fun_induction visit graph visited queue with
  | case1 => exact hmem
  | case2 _ _ _ _ ih => exact ih hmem
  | case3 _ _ _ _ ih => exact ih (List.mem_append_left _ hmem)

/-- What is queued is visited. -/
theorem mem_visit_of_queue (hmem : name ∈ queue) : name ∈ graph.visit visited queue := by
  fun_induction visit graph visited queue with
  | case1 => cases hmem
  | case2 visited first rest hseen ih =>
      rcases List.mem_cons.mp hmem with rfl | hmem
      · exact mem_visit_of_visited hseen
      · exact ih hmem
  | case3 visited first rest hseen ih =>
      rcases List.mem_cons.mp hmem with rfl | hmem
      · exact mem_visit_of_visited (by simp)
      · exact ih (List.mem_append_left _ hmem)

/-- A property that calls keep holds of all that is visited. -/
theorem visit_induction {P : String → Prop} (hcalls : ∀ a b, P a → graph.Calls a b → P b)
    (hvisited : ∀ name ∈ visited, P name) (hqueue : ∀ name ∈ queue, P name)
    (hmem : name ∈ graph.visit visited queue) : P name := by
  fun_induction visit graph visited queue with
  | case1 => exact hvisited name hmem
  | case2 visited first rest _ ih =>
      exact ih hvisited (fun other hother => hqueue other (List.mem_cons_of_mem _ hother)) hmem
  | case3 visited first rest _ ih =>
      have hfirst := hqueue first (by simp)
      refine ih ?_ ?_ hmem
      · intro other hother
        rcases List.mem_append.mp hother with hother | hother
        · exact hvisited other hother
        · rwa [List.mem_singleton.mp hother]
      · intro other hother
        rcases List.mem_append.mp hother with hother | hother
        · exact hqueue other (List.mem_cons_of_mem _ hother)
        · exact hcalls first other hfirst hother

/-- When the callees of all visited methods are visited or queued, what is visited in the end is
closed under calls. -/
theorem visit_closed {callee : String}
    (hclosed : ∀ name ∈ visited, ∀ other, graph.Calls name other → other ∈ visited ∨ other ∈ queue)
    (hmem : name ∈ graph.visit visited queue) (hcall : graph.Calls name callee) :
    callee ∈ graph.visit visited queue := by
  fun_induction visit graph visited queue with
  | case1 visited =>
      rcases hclosed name hmem callee hcall with hvisited | hqueue
      · exact hvisited
      · cases hqueue
  | case2 visited first rest hseen ih =>
      refine ih ?_ hmem
      intro caller hcaller other hother
      rcases hclosed caller hcaller other hother with hvisited | hqueue
      · exact .inl hvisited
      · rcases List.mem_cons.mp hqueue with rfl | hqueue
        · exact .inl hseen
        · exact .inr hqueue
  | case3 visited first rest _ ih =>
      refine ih ?_ hmem
      intro caller hcaller other hother
      simp only [List.mem_append, List.mem_singleton] at hcaller ⊢
      rcases hcaller with hcaller | rfl
      · rcases hclosed caller hcaller other hother with hvisited | hqueue
        · exact .inl (.inl hvisited)
        · rcases List.mem_cons.mp hqueue with rfl | hqueue
          · exact .inl (.inr rfl)
          · exact .inr (.inl hqueue)
      · exact .inr (.inr hother)

/-- No method is visited twice. -/
theorem nodup_visit (hnodup : visited.Nodup) : (graph.visit visited queue).Nodup := by
  fun_induction visit graph visited queue with
  | case1 => exact hnodup
  | case2 _ _ _ _ ih => exact ih hnodup
  | case3 visited first rest hseen ih =>
      refine ih (List.nodup_append.mpr ⟨hnodup, by simp, ?_⟩)
      rintro a ha b hb rfl
      exact hseen (List.mem_singleton.mp hb ▸ ha)

/-- The reachable methods are those to which calls lead from an entry point. -/
theorem mem_reachable : name ∈ graph.reachable ↔
    ∃ entry ∈ graph.entries, Relation.ReflTransGen graph.Calls entry name := by
  constructor
  · intro hmem
    refine visit_induction (P := fun name => ∃ entry ∈ graph.entries,
      Relation.ReflTransGen graph.Calls entry name) ?_ ?_ ?_ hmem
    · rintro a b ⟨entry, hentry, hcalls⟩ hcall
      exact ⟨entry, hentry, hcalls.tail hcall⟩
    · simp
    · exact fun entry hentry => ⟨entry, hentry, .refl⟩
  · rintro ⟨entry, hentry, hcalls⟩
    induction hcalls with
    | refl => exact mem_visit_of_queue hentry
    | tail _ hcall ih => exact visit_closed (by simp) ih hcall

/-- Each reachable method is listed once. -/
theorem nodup_reachable : graph.reachable.Nodup :=
  nodup_visit List.nodup_nil

/-! ## The graph of a program -/

/-- The callees after an edge was added. -/
theorem calls_add_edge {a b caller callee : String} :
    (graph.addEdge a b).2.Calls caller callee ↔
      graph.Calls caller callee ∨ a = caller ∧ b = callee := by
  simp only [Calls, callees, addEdge, Std.ExtTreeMap.getElem?_insert,
    Std.LawfulEqCmp.compare_eq_iff_eq]
  by_cases hcaller : a = caller
  · subst hcaller
    simp only [if_true, true_and, Std.ExtTreeSet.mem_toList, Std.ExtTreeSet.mem_insert,
      Std.LawfulEqCmp.compare_eq_iff_eq]
    cases graph.edges[a]? with
    | none => simp
    | some callees => simp [or_comm]
  · simp [hcaller]

/-- The callees after several edges were added. -/
theorem calls_foldl (edges : List (String × String)) {caller callee : String} :
    (edges.foldl (fun graph edge => (graph.addEdge edge.1 edge.2).2) graph).Calls caller callee ↔
      graph.Calls caller callee ∨ (caller, callee) ∈ edges := by
  induction edges generalizing graph with
  | nil => simp
  | cons edge rest ih =>
      obtain ⟨a, b⟩ := edge
      rw [List.foldl_cons, ih, calls_add_edge, List.mem_cons, Prod.mk.injEq, or_assoc,
        eq_comm, @eq_comm _ b]

/-- Adding edges does not change the entry points. -/
theorem entries_foldl (edges : List (String × String)) :
    (edges.foldl (fun graph edge => (graph.addEdge edge.1 edge.2).2) graph).entries =
      graph.entries := by
  induction edges generalizing graph with
  | nil => rfl
  | cons edge rest ih => exact ih

/-- The entry points of the graph of a program are its roots. -/
theorem entries_of_program (program : Program) (discovered : List CallEdge) :
    (ofProgram program discovered).entries = program.roots :=
  entries_foldl _

/-- The graph of a program has its direct calls and the further edges. -/
theorem calls_of_program {program : Program} {discovered : List CallEdge}
    {caller callee : String} :
    (ofProgram program discovered).Calls caller callee ↔
      (∃ method ∈ program.methods, callee ∈ method.callees ∧ method.name = caller) ∨
      ∃ edge ∈ discovered, edge.caller = caller ∧ edge.callee = callee := by
  rw [ofProgram, calls_foldl]
  simp [Calls, callees]

end CallGraph

namespace Program

variable {program : Program} {discovered : Std.ExtTreeSet CallEdge} {method : Method}

/-- A method that is found has the name that it was looked up by. -/
theorem name_of_method? {name : String} (hfind : program.method? name = some method) :
    method.name = name := by
  simpa using List.find?_some hfind

/-- The methods to collect are those that are found by a reachable name. -/
theorem mem_reachable_methods :
    method ∈ program.reachableMethods discovered ↔
      method.name ∈ (CallGraph.ofProgram program discovered.toList).reachable ∧
        program.method? method.name = some method := by
  rw [reachableMethods, List.mem_filterMap]
  constructor
  · rintro ⟨name, hreach, hfind⟩
    obtain rfl := name_of_method? hfind
    exact ⟨hreach, hfind⟩
  · rintro ⟨hreach, hfind⟩
    exact ⟨method.name, hreach, hfind⟩

/-- The methods to collect are methods of the program. -/
theorem mem_of_mem_reachable_methods (hmem : method ∈ program.reachableMethods discovered) :
    method ∈ program.methods :=
  List.mem_of_find?_eq_some (mem_reachable_methods.mp hmem).2

/-- The methods to collect have different names. -/
theorem nodup_reachable_methods (program : Program) (discovered : Std.ExtTreeSet CallEdge) :
    ((program.reachableMethods discovered).map (·.name)).Nodup := by
  rw [reachableMethods, List.map_filterMap]
  refine List.Pairwise.filterMap _ ?_ CallGraph.nodup_reachable
  intro a b hne name ha other hb
  obtain ⟨first, hfirst, rfl⟩ := Option.map_eq_some_iff.mp ha
  obtain ⟨second, hsecond, rfl⟩ := Option.map_eq_some_iff.mp hb
  rwa [name_of_method? hfirst, name_of_method? hsecond]

/-! ## Programs in another order -/

/-- Two programs have the same methods and the same entry points, each in some order. -/
structure Reordered (program program' : Program) : Prop where
  methods : program.methods.Perm program'.methods
  entryPoints : program.entryPoints.Perm program'.entryPoints

variable {program' : Program}

/-- A program is a reordering of its reorderings. -/
theorem Reordered.symm (horder : program.Reordered program') : program'.Reordered program :=
  ⟨horder.methods.symm, horder.entryPoints.symm⟩

/-- The roots do not depend on the order. -/
theorem Reordered.mem_roots (horder : program.Reordered program') {name : String} :
    name ∈ program.roots ↔ name ∈ program'.roots := by
  have hempty : program.entryPoints.isEmpty = program'.entryPoints.isEmpty := by
    rw [Bool.eq_iff_iff, List.isEmpty_iff, List.isEmpty_iff]
    exact ⟨fun h => (h ▸ horder.entryPoints).nil_eq.symm, fun h => (h ▸ horder.entryPoints).eq_nil⟩
  rw [roots, roots, hempty]
  split
  · exact (horder.methods.map _).mem_iff
  · exact horder.entryPoints.mem_iff

/-- When names are different, a method is found by its name. -/
theorem method?_eq_some (hnames : (program.methods.map (·.name)).Nodup) {name : String} :
    program.method? name = some method ↔ method ∈ program.methods ∧ method.name = name := by
  constructor
  · exact fun hfind => ⟨List.mem_of_find?_eq_some hfind, name_of_method? hfind⟩
  · rintro ⟨hmem, rfl⟩
    cases hfind : program.method? method.name with
    | none => simpa using List.find?_eq_none.mp hfind method hmem
    | some found =>
        have hfound := List.mem_of_find?_eq_some hfind
        rw [List.inj_on_of_nodup_map hnames hfound hmem (name_of_method? hfind)]

/-- When names are different, looking up a method does not depend on the order. -/
theorem Reordered.method? (horder : program.Reordered program')
    (hnames : (program.methods.map (·.name)).Nodup) (name : String) :
    program.method? name = program'.method? name := by
  have hnames' : (program'.methods.map (·.name)).Nodup :=
    (horder.methods.map _).nodup_iff.mp hnames
  ext method
  rw [method?_eq_some hnames, method?_eq_some hnames', horder.methods.mem_iff]

/-- Which methods are reachable does not depend on the order. -/
theorem Reordered.mem_reachable (horder : program.Reordered program') {edges : List CallEdge}
    {name : String} :
    name ∈ (CallGraph.ofProgram program edges).reachable ↔
      name ∈ (CallGraph.ofProgram program' edges).reachable := by
  have hcalls : (CallGraph.ofProgram program edges).Calls =
      (CallGraph.ofProgram program' edges).Calls := by
    funext caller callee
    simp only [CallGraph.calls_of_program, horder.methods.mem_iff]
  simp only [CallGraph.mem_reachable, CallGraph.entries_of_program, hcalls, horder.mem_roots]

/-- When names are different, which methods are collected does not depend on the order. -/
theorem Reordered.mem_reachable_methods (horder : program.Reordered program')
    (hnames : (program.methods.map (·.name)).Nodup) :
    method ∈ program.reachableMethods discovered ↔
      method ∈ program'.reachableMethods discovered := by
  rw [Program.mem_reachable_methods, Program.mem_reachable_methods, horder.mem_reachable,
    horder.method? hnames]

end Program

end StringReach
