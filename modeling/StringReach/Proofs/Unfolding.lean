import Mathlib.Data.List.Forall2
import Mathlib.Tactic.Choose
import StringReach.Proofs.Graph
import StringReach.Proofs.Solution
import StringReach.Solution.Assemble

/-!
# Unfolding a term to a bounded depth

The meaning of a box at a depth is given by rules, one for each kind of term, that follow the graph
from the box downwards and share nothing. `Unfolds.deterministic` says that the rules leave no
choice. A box is `Stable` when its meaning depends neither on the depth nor on how it was reached;
`Stable.assemble` says that a box is stable when its children are.
-/

namespace StringReach.Arena

/-- `Unfolds arena depth path h strings warnings` says that the unfolding of `h`, reached along the
compound boxes of `path`, has the given strings and so many warnings. A compound box that stands on
the path more than `depth` times already is cut off. -/
inductive Unfolds (arena : Arena) (depth : Nat) :
    List Handle → Handle → Set String → Nat → Prop where
  | top (path h) : arena.get? h = some .top → Unfolds arena depth path h ∅ 1
  | bottom (path h) : arena.get? h = some .bottom →
      Unfolds arena depth path h {Wildcard.marker} 0
  | terminal (path h value) : arena.get? h = some (.terminal value) →
      Unfolds arena depth path h {value} 0
  | parameter (path h) : arena.get? h = some .parameter →
      Unfolds arena depth path h {Wildcard.marker} 0
  | call (path h callee) : arena.get? h = some (.call callee) →
      Unfolds arena depth path h {Wildcard.marker} 0
  | pending (path h) : arena.get? h = some .pending →
      Unfolds arena depth path h {Wildcard.marker} 1
  | cut (path h term) : arena.get? h = some term → term.isCompound = true →
      depth < path.count h → Unfolds arena depth path h {Wildcard.marker} 1
  | union (path h items) (strings : Handle → Set String) (warnings : Handle → Nat) :
      arena.get? h = some (.union items) → path.count h ≤ depth →
      (∀ item ∈ items, Unfolds arena depth (h :: path) item (strings item) (warnings item)) →
      Unfolds arena depth path h (⋃ item ∈ items, strings item) (items.map warnings).sum
  | concat (path h left right leftStrings rightStrings leftWarnings rightWarnings) :
      arena.get? h = some (.concat left right) → path.count h ≤ depth →
      Unfolds arena depth (h :: path) left leftStrings leftWarnings →
      Unfolds arena depth (h :: path) right rightStrings rightWarnings →
      Unfolds arena depth path h (Set.image2 (· ++ ·) leftStrings rightStrings)
        (leftWarnings + rightWarnings)
  | eq (path h inner strings warnings) : arena.get? h = some (.eq inner) →
      path.count h ≤ depth → Unfolds arena depth (h :: path) inner strings warnings →
      Unfolds arena depth path h strings warnings

/-- A box is stable at a solution when every unfolding of it gives that solution, whatever the depth
and whatever the way to the box. -/
structure Stable (arena : Arena) (h : Handle) (solution : Solution) : Prop where
  grounded : arena.Grounded (fun _ => True) h
  unfolds : ∀ depth path, arena.Leads path h →
    arena.Unfolds depth path h solution.language solution.warnings

/-- Every solution of a table is stable. -/
def StableTable (arena : Arena) (known : Std.ExtTreeMap Handle Solution) : Prop :=
  ∀ h solution, known[h]? = some solution → arena.Stable h solution

/-- What is related to a list member by member is related to each member. -/
theorem exists_of_forall₂ {R : Handle → Solution → Prop} {items : List Handle}
    {parts : List Solution} (hparts : List.Forall₂ R items parts) {item : Handle}
    (hmem : item ∈ items) : ∃ part, R item part := by
  induction hparts with
  | nil => cases hmem
  | @cons first part _ _ hfirst _ ih =>
      rcases List.mem_cons.mp hmem with rfl | hmem
      · exact ⟨part, hfirst⟩
      · exact ih hmem

variable {arena : Arena} {depth : Nat} {path : List Handle} {h : Handle} {term : Term}
  {strings strings' : Set String} {warnings warnings' : Nat} {parts : List Solution}

namespace Unfolds

/-- A box has one unfolding at a depth and path. -/
theorem deterministic (hfirst : arena.Unfolds depth path h strings warnings)
    (hsecond : arena.Unfolds depth path h strings' warnings') :
    strings = strings' ∧ warnings = warnings' := by
  induction hfirst generalizing strings' warnings' with
  | top path h hget | bottom path h hget | terminal path h value hget | parameter path h hget
  | call path h callee hget | pending path h hget =>
      cases hsecond <;> simp_all [Term.isCompound]
  | cut path h term hget hcompound hcount =>
      cases hsecond with
      | cut => exact ⟨rfl, rfl⟩
      | union | concat | eq => omega
      | top _ _ hother | bottom _ _ hother | terminal _ _ _ hother | parameter _ _ hother
      | call _ _ _ hother | pending _ _ hother =>
          cases hget.symm.trans hother
          cases hcompound
  | union path h items strings warnings hget hcount _ ih =>
      cases hsecond with
      | union _ _ _ _ _ hother _ hitems =>
          cases hget.symm.trans hother
          refine ⟨Set.iUnion₂_congr fun item hmem => (ih item hmem (hitems item hmem)).1, ?_⟩
          rw [List.map_congr_left fun item hmem => (ih item hmem (hitems item hmem)).2]
      | cut => omega
      | top | bottom | terminal | parameter | call | pending | concat | eq => simp_all
  | concat path h left right _ _ _ _ hget hcount _ _ ihleft ihright =>
      cases hsecond with
      | concat _ _ _ _ _ _ _ _ hother _ hleft hright =>
          cases hget.symm.trans hother
          obtain ⟨rfl, rfl⟩ := ihleft hleft
          obtain ⟨rfl, rfl⟩ := ihright hright
          exact ⟨rfl, rfl⟩
      | cut => omega
      | top | bottom | terminal | parameter | call | pending | union | eq => simp_all
  | eq path h inner _ _ hget hcount _ ih =>
      cases hsecond with
      | eq _ _ _ _ _ hother _ hinner =>
          cases hget.symm.trans hother
          exact ih hinner
      | cut => omega
      | top | bottom | terminal | parameter | call | pending | union | concat => simp_all

/-- A box without children unfolds to the solution that every solver gives it. -/
theorem leaf (hget : arena.get? h = some term) (hleaf : term.isCompound = false) :
    arena.Unfolds depth path h (term.assemble []).language (term.assemble []).warnings := by
  cases term with
  | top =>
      show arena.Unfolds depth path h Solution.warning.language 1
      rw [Solution.language_warning]
      exact .top path h hget
  | bottom =>
      show arena.Unfolds depth path h Solution.wildcard.language 0
      rw [Solution.language_wildcard]
      exact .bottom path h hget
  | terminal value =>
      show arena.Unfolds depth path h (Solution.literal value).language 0
      rw [Solution.language_literal]
      exact .terminal path h value hget
  | parameter =>
      show arena.Unfolds depth path h Solution.wildcard.language 0
      rw [Solution.language_wildcard]
      exact .parameter path h hget
  | pending =>
      show arena.Unfolds depth path h Solution.cut.language 1
      rw [Solution.language_cut]
      exact .pending path h hget
  | call callee =>
      show arena.Unfolds depth path h Solution.wildcard.language 0
      rw [Solution.language_wildcard]
      exact .call path h callee hget
  | union _ | concat _ _ | eq _ => cases hleaf

/-- Solutions found one by one for several boxes are the values of one function on the boxes. -/
theorem exists_solutions {items : List Handle}
    (hparts : List.Forall₂ (fun item part =>
      arena.Unfolds depth path item part.language part.warnings) items parts) :
    ∃ part : Handle → Solution, parts = items.map part ∧
      ∀ item ∈ items, arena.Unfolds depth path item (part item).language (part item).warnings := by
  have hpart : ∀ item, ∃ part : Solution, item ∈ items →
      arena.Unfolds depth path item part.language part.warnings := by
    intro item
    by_cases hmem : item ∈ items
    · obtain ⟨part, hunfolds⟩ := exists_of_forall₂ hparts hmem
      exact ⟨part, fun _ => hunfolds⟩
    · exact ⟨.empty, fun hitem => absurd hitem hmem⟩
  choose part hpart using hpart
  -- A box listed twice was solved twice, to the same solution.
  have hunique : Relator.RightUnique fun item (part : Solution) =>
      arena.Unfolds depth path item part.language part.warnings := by
    intro item a b ha hb
    obtain ⟨hlanguage, hwarnings⟩ := ha.deterministic hb
    exact Solution.ext_language hlanguage hwarnings
  refine ⟨part, hunique.forall₂ hparts ?_, hpart⟩
  exact List.forall₂_map_right_iff.mpr (List.forall₂_same.mpr hpart)

/-- A compound box that is not cut off unfolds to what its children are assembled to. -/
theorem assemble (hget : arena.get? h = some term) (hcompound : term.isCompound = true)
    (hcount : path.count h ≤ depth)
    (hparts : List.Forall₂ (fun child part =>
      arena.Unfolds depth (h :: path) child part.language part.warnings) term.children parts) :
    arena.Unfolds depth path h (term.assemble parts).language (term.assemble parts).warnings := by
  cases term with
  | union items =>
      obtain ⟨part, rfl, hitems⟩ := exists_solutions hparts
      show arena.Unfolds depth path h (Solution.mergeAll (items.map part)).language
        (Solution.mergeAll (items.map part)).warnings
      rw [Solution.language_merge_all, Solution.warnings_merge_all, List.map_map]
      have hunion : ⋃ solution ∈ items.map part, solution.language =
          ⋃ item ∈ items, (part item).language := by
        ext text
        simp
      rw [hunion]
      exact .union path h items (fun item => (part item).language) _ hget hcount hitems
  | concat left right =>
      obtain ⟨a, _, hleft, hrest, rfl⟩ := List.forall₂_cons_left_iff.mp hparts
      obtain ⟨b, _, hright, hnil, rfl⟩ := List.forall₂_cons_left_iff.mp hrest
      cases hnil
      show arena.Unfolds depth path h (a.concat b).language (a.warnings + b.warnings)
      rw [Solution.language_concat]
      exact .concat path h left right _ _ _ _ hget hcount hleft hright
  | eq inner =>
      obtain ⟨a, _, hinner, hnil, rfl⟩ := List.forall₂_cons_left_iff.mp hparts
      cases hnil
      exact .eq path h inner _ _ hget hcount hinner
  | top | bottom | terminal _ | parameter | pending | call _ => cases hcompound

/-! ## Unfoldings of compound boxes that are not cut off -/

/-- A union unfolds to what its items unfold to. -/
theorem of_union {items : List Handle} (hunfolds : arena.Unfolds depth path h strings warnings)
    (hget : arena.get? h = some (.union items)) (hcount : path.count h ≤ depth) :
    ∃ (parts : Handle → Set String) (counts : Handle → Nat),
      strings = ⋃ item ∈ items, parts item ∧ warnings = (items.map counts).sum ∧
      ∀ item ∈ items, arena.Unfolds depth (h :: path) item (parts item) (counts item) := by
  cases hunfolds with
  | union _ _ _ parts counts hother _ hitems =>
      cases hget.symm.trans hother
      exact ⟨parts, counts, rfl, rfl, hitems⟩
  | cut => omega
  | top | bottom | terminal | parameter | call | pending | concat | eq => simp_all

/-- A concatenation unfolds to what its two parts unfold to, put together. -/
theorem of_concat {left right : Handle} (hunfolds : arena.Unfolds depth path h strings warnings)
    (hget : arena.get? h = some (.concat left right)) (hcount : path.count h ≤ depth) :
    ∃ first firstCount second secondCount, strings = Set.image2 (· ++ ·) first second ∧
      warnings = firstCount + secondCount ∧
      arena.Unfolds depth (h :: path) left first firstCount ∧
      arena.Unfolds depth (h :: path) right second secondCount := by
  cases hunfolds with
  | concat _ _ _ _ first second _ _ hother _ hleft hright =>
      cases hget.symm.trans hother
      exact ⟨first, _, second, _, rfl, rfl, hleft, hright⟩
  | cut => omega
  | top | bottom | terminal | parameter | call | pending | union | eq => simp_all

/-- A box that has the values of another unfolds to what the other unfolds to. -/
theorem of_eq {inner : Handle} (hunfolds : arena.Unfolds depth path h strings warnings)
    (hget : arena.get? h = some (.eq inner)) (hcount : path.count h ≤ depth) :
    arena.Unfolds depth (h :: path) inner strings warnings := by
  cases hunfolds with
  | eq _ _ _ _ _ hother _ hinner =>
      cases hget.symm.trans hother
      exact hinner
  | cut => omega
  | top | bottom | terminal | parameter | call | pending | union | concat => simp_all

end Unfolds

/-- A box that is made of stable boxes is stable. -/
theorem Stable.assemble (hget : arena.get? h = some term)
    (hparts : List.Forall₂ arena.Stable term.children parts) :
    arena.Stable h (term.assemble parts) := by
  have hground : arena.Grounded (fun _ => True) h := by
    refine .intro h term hget trivial ?_
    intro child hmem
    obtain ⟨part, hstable⟩ := exists_of_forall₂ hparts hmem
    exact hstable.grounded
  refine ⟨hground, ?_⟩
  intro depth path hleads
  by_cases hcompound : term.isCompound = true
  · -- A grounded box is never cut off, since no way to it passes through it.
    have hcount : path.count h ≤ depth := by
      rw [hground.count_eq_zero hleads]
      exact Nat.zero_le depth
    have hchildren : List.Forall₂ (fun child part => arena.Child h child ∧ arena.Stable child part)
        term.children parts :=
      (List.forall₂_and_left _ _).mpr ⟨fun _ hmem => (child_iff hget).mpr hmem, hparts⟩
    refine Unfolds.assemble hget hcompound hcount (hchildren.imp ?_)
    rintro child part ⟨hchild, hstable⟩
    exact hstable.unfolds depth (h :: path) (hleads.enter hchild)
  · have hleaf : term.isCompound = false := Bool.eq_false_iff.mpr hcompound
    rw [Term.children_eq_nil_of_not_compound hleaf] at hparts
    cases hparts
    exact .leaf hget hleaf

/-- A box is stable at one solution only. -/
theorem Stable.unique {solution other : Solution} (hstable : arena.Stable h solution)
    (hother : arena.Stable h other) : solution = other := by
  obtain ⟨hlanguage, hwarnings⟩ :=
    (hstable.unfolds 0 [] leads_nil).deterministic (hother.unfolds 0 [] leads_nil)
  exact Solution.ext_language hlanguage hwarnings

/-- A table without solutions is stable. -/
theorem stable_table_empty : arena.StableTable ∅ := by
  intro h solution hknown
  rw [Std.ExtTreeMap.getElem?_empty] at hknown
  cases hknown

/-- A stable solution may be added to a table. -/
theorem StableTable.insert {known : Std.ExtTreeMap Handle Solution} {solution : Solution}
    (htable : arena.StableTable known) (hstable : arena.Stable h solution) :
    arena.StableTable (known.insert h solution) := by
  intro other found hknown
  rw [Std.ExtTreeMap.getElem?_insert] at hknown
  split at hknown
  · rename_i heq
    obtain rfl := Std.LawfulEqOrd.eq_of_compare heq
    cases hknown
    exact hstable
  · exact htable other found hknown

end StringReach.Arena
