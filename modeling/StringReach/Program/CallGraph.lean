import StringReach.Program.Basic
import StringReach.Program.Point
import Std.Data.ExtTreeMap
import Std.Data.ExtTreeSet

/-!
# Call graphs

A call graph has the direct calls of a program and the edges that were found through reflection.
`CallGraph.reachable` lists the methods that can be reached from its entry points, nearest first.
-/

namespace StringReach

/-- How a call edge was found. -/
inductive EdgeOrigin where
  | direct
  /-- From the strings that reach a reflective call. -/
  | reflective (site : Point)
deriving DecidableEq, Repr, Inhabited

/-- The reflective call that an edge comes from. -/
def EdgeOrigin.site? : EdgeOrigin → Option Point
  | direct => none
  | reflective site => some site

/-- A call from one method to another. -/
structure CallEdge where
  caller : String
  callee : String
  origin : EdgeOrigin
deriving DecidableEq, Repr, Inhabited

namespace CallEdge

/-- Edges are ordered by caller, then by callee, then by origin, direct calls first. -/
instance : Ord CallEdge where
  compare :=
    compareLex (compareOn caller) (compareLex (compareOn callee) (compareOn (·.origin.site?)))

instance : Std.TransOrd CallEdge :=
  inferInstanceAs (Std.TransCmp
    (compareLex (compareOn caller) (compareLex (compareOn callee) (compareOn (·.origin.site?)))))

instance : Std.LawfulEqOrd CallEdge where
  compare_self := Std.ReflCmp.compare_self
  eq_of_compare {a b} h := by
    change compareLex (compareOn caller)
      (compareLex (compareOn callee) (compareOn (·.origin.site?))) a b = .eq at h
    simp only [compareLex_eq_eq, compareOn, Std.compare_eq_iff_eq] at h
    obtain ⟨caller, callee, origin⟩ := a
    obtain ⟨caller', callee', origin'⟩ := b
    cases origin <;> cases origin' <;> simp_all [EdgeOrigin.site?]

end CallEdge

/-- Entry points and the callees of each method. -/
structure CallGraph where
  entries : List String := []
  edges : Std.ExtTreeMap String (Std.ExtTreeSet String) := ∅

namespace CallGraph

/-- The callees of a method, in order. -/
def callees (graph : CallGraph) (caller : String) : List String :=
  match graph.edges[caller]? with
  | some callees => callees.toList
  | none => []

/-- Add an edge, and say whether it is new. -/
def addEdge (graph : CallGraph) (caller callee : String) : Bool × CallGraph :=
  let callees := (graph.edges[caller]?).getD ∅
  (!callees.contains callee,
    { graph with edges := graph.edges.insert caller (callees.insert callee) })

/-- The number of edges. -/
def edgeCount (graph : CallGraph) : Nat :=
  (graph.edges.toList.map fun entry => entry.2.size).foldr (· + ·) 0

/-- The graph of the direct calls of a program and some further edges. -/
def ofProgram (program : Program) (discovered : List CallEdge) : CallGraph :=
  let direct := program.methods.flatMap fun method => method.callees.map (method.name, ·)
  let further := discovered.map fun edge => (edge.caller, edge.callee)
  (direct ++ further).foldl (fun graph edge => (graph.addEdge edge.1 edge.2).2)
    { entries := program.roots }

/-- The methods that have callees and are not among the visited ones. -/
def unvisited (graph : CallGraph) (visited : List String) : List String :=
  graph.edges.keys.filter (· ∉ visited)

/-- A method without an entry has no callees. -/
theorem callees_eq_nil {graph : CallGraph} {name : String} (h : name ∉ graph.edges.keys) :
    graph.callees name = [] := by
  rw [Std.ExtTreeMap.mem_keys] at h
  simp [callees, Std.ExtTreeMap.getElem?_eq_none h]

/-- Visiting more leaves less to visit. -/
theorem unvisited_length_le (graph : CallGraph) (visited : List String) (name : String) :
    (graph.unvisited (visited ++ [name])).length ≤ (graph.unvisited visited).length := by
  simp only [unvisited, ← List.countP_eq_length_filter]
  apply List.countP_mono_left
  intro other _ h
  simp only [List.mem_append, decide_eq_true_eq, not_or] at h ⊢
  exact h.1

/-- Visiting a method with callees leaves strictly less to visit. -/
theorem unvisited_length_lt {graph : CallGraph} {visited : List String} {name : String}
    (hkey : name ∈ graph.edges.keys) (hnew : name ∉ visited) :
    (graph.unvisited (visited ++ [name])).length < (graph.unvisited visited).length := by
  have hfilter : graph.unvisited (visited ++ [name])
      = (graph.unvisited visited).filter (· ≠ name) := by
    simp only [unvisited, List.filter_filter]
    apply List.filter_congr
    intro other _
    simp [and_comm]
  rw [hfilter]
  apply List.length_filter_lt_length_iff_exists.mpr
  exact ⟨name, by simp [unvisited, hkey, hnew], by simp⟩

/-- Visit the queued methods and what they reach, each once and in the order of arrival. -/
def visit (graph : CallGraph) (visited : List String) : List String → List String
  | [] => visited
  | name :: queue =>
      if _hseen : name ∈ visited then
        visit graph visited queue
      else
        visit graph (visited ++ [name]) (queue ++ graph.callees name)
termination_by queue => ((graph.unvisited visited).length, queue.length)
decreasing_by
  · exact Prod.Lex.right _ (by simp)
  · by_cases hkey : name ∈ graph.edges.keys
    · exact Prod.Lex.left _ _ (unvisited_length_lt hkey _hseen)
    · rw [callees_eq_nil hkey]
      rcases Nat.lt_or_eq_of_le (graph.unvisited_length_le visited name) with hlt | heq
      · exact Prod.Lex.left _ _ hlt
      · rw [heq]
        exact Prod.Lex.right _ (by simp)

/-- The methods that can be reached from the entry points, breadth first. -/
def reachable (graph : CallGraph) : List String :=
  graph.visit [] graph.entries

end CallGraph

end StringReach
