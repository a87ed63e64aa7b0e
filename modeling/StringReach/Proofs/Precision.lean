import Mathlib.Data.List.Infix
import StringReach.Proofs.Derivation

/-!
# What the bounded solver knows exactly

A string without a wildcard says that a value is exactly this text, and a string with wildcards says
less. `Refines` compares two sets of strings in this sense, and it is kept by every way of putting
sets of strings together. A box has the strings that it `Forms` from constants as its finest set:
these refine its unfolding at every depth (`Unfolds.refined_by_formed`), an unfolding is refined by
every deeper one (`Unfolds.refined_by_deeper`), and each formed string is found from some depth on
(`Forms.exists_depth`).
-/

namespace StringReach

namespace Wildcard

/-- A text without a wildcard in it. -/
def Free (text : String) : Prop :=
  ¬ marker.toList <:+: text.toList

/-- The wildcard is in itself. -/
theorem not_free_marker : ¬ Free marker :=
  fun hfree => hfree (List.infix_refl _)

/-- Both parts of a text without a wildcard are without one. -/
theorem Free.of_append {first second : String} (hfree : Free (first ++ second)) :
    Free first ∧ Free second := by
  rw [Free, String.toList_append] at hfree
  constructor
  · exact fun hfirst => hfree (hfirst.trans (List.prefix_append _ _).isInfix)
  · exact fun hsecond => hfree (hsecond.trans (List.suffix_append _ _).isInfix)

/-- `Refines coarse fine` says that `fine` is the more precise of two sets of strings: it has the
texts without a wildcard that `coarse` has, and all of its strings match one of `coarse`. -/
structure Refines (coarse fine : Set String) : Prop where
  keeps : ∀ text ∈ coarse, Free text → text ∈ fine
  covered : ∀ text ∈ fine, ∃ pattern ∈ coarse, Matches pattern text

namespace Refines

variable {coarse fine coarse' fine' : Set String}

/-- Every set refines itself. -/
theorem refl (strings : Set String) : Refines strings strings where
  keeps _ hmem _ := hmem
  covered text hmem := ⟨text, hmem, .refl text⟩

/-- Every set refines the wildcard. -/
theorem marker (fine : Set String) : Refines {Wildcard.marker} fine where
  keeps text hmem hfree := by
    rw [Set.mem_singleton_iff.mp hmem] at hfree
    exact absurd hfree not_free_marker
  covered text _ := ⟨_, rfl, matches_marker text⟩

/-- Sets are refined together when each of them is. -/
theorem unions {items : List Handle} {coarse fine : Handle → Set String}
    (hitems : ∀ item ∈ items, Refines (coarse item) (fine item)) :
    Refines (⋃ item ∈ items, coarse item) (⋃ item ∈ items, fine item) where
  keeps text htext hfree := by
    obtain ⟨item, hitem, htext⟩ := Set.mem_iUnion₂.mp htext
    exact Set.mem_biUnion hitem ((hitems item hitem).keeps text htext hfree)
  covered text htext := by
    obtain ⟨item, hitem, htext⟩ := Set.mem_iUnion₂.mp htext
    obtain ⟨pattern, hpattern, hmatches⟩ := (hitems item hitem).covered text htext
    exact ⟨pattern, Set.mem_biUnion hitem hpattern, hmatches⟩

/-- Strings put together are refined when both of their parts are. -/
theorem append (hleft : Refines coarse fine) (hright : Refines coarse' fine') :
    Refines (Set.image2 (· ++ ·) coarse coarse') (Set.image2 (· ++ ·) fine fine') where
  keeps := by
    rintro _ ⟨first, hfirst, second, hsecond, rfl⟩ hfree
    obtain ⟨hfree, hfree'⟩ := hfree.of_append
    exact Set.mem_image2_of_mem (hleft.keeps first hfirst hfree)
      (hright.keeps second hsecond hfree')
  covered := by
    rintro _ ⟨first, hfirst, second, hsecond, rfl⟩
    obtain ⟨pattern, hpattern, hmatches⟩ := hleft.covered first hfirst
    obtain ⟨pattern', hpattern', hmatches'⟩ := hright.covered second hsecond
    exact ⟨pattern ++ pattern', Set.mem_image2_of_mem hpattern hpattern',
      hmatches.append hmatches'⟩

end Refines

end Wildcard

namespace Arena

/-- `Forms arena h text` says that the value of a box may be `text`, put together from constants
alone. -/
inductive Forms (arena : Arena) : Handle → String → Prop where
  | terminal (h value) : arena.get? h = some (.terminal value) → Forms arena h value
  | union (h items item text) : arena.get? h = some (.union items) → item ∈ items →
      Forms arena item text → Forms arena h text
  | concat (h left right first second) : arena.get? h = some (.concat left right) →
      Forms arena left first → Forms arena right second → Forms arena h (first ++ second)
  | eq (h inner text) : arena.get? h = some (.eq inner) → Forms arena inner text →
      Forms arena h text

/-- The strings that a box forms. -/
def formed (arena : Arena) (h : Handle) : Set String :=
  {text | arena.Forms h text}

variable {arena : Arena} {depth depth' : Nat} {path : List Handle} {h left right inner : Handle}
  {items : List Handle} {strings strings' : Set String} {warnings warnings' : Nat} {text : String}

/-! ## What a box forms -/

/-- A box without children forms a string only if it holds a constant. -/
theorem formed_leaf {term : Term} (hget : arena.get? h = some term)
    (hleaf : term.isCompound = false) :
    arena.formed h = {text | term = .terminal text} := by
  ext text
  constructor
  · intro hforms
    cases hforms with
    | terminal _ _ hother => exact Option.some.inj (hget.symm.trans hother)
    | union _ _ _ _ hother | concat _ _ _ _ _ hother | eq _ _ _ hother =>
        cases hget.symm.trans hother
        cases hleaf
  · rintro rfl
    exact .terminal h text hget

/-- A union forms what its items form. -/
theorem formed_union (hget : arena.get? h = some (.union items)) :
    arena.formed h = ⋃ item ∈ items, arena.formed item := by
  ext text
  rw [Set.mem_iUnion₂]
  constructor
  · intro hforms
    cases hforms with
    | union _ _ item _ hother hmem hitem =>
        cases hget.symm.trans hother
        exact ⟨item, hmem, hitem⟩
    | terminal _ _ hother | concat _ _ _ _ _ hother | eq _ _ _ hother =>
        cases hget.symm.trans hother
  · rintro ⟨item, hmem, hitem⟩
    exact .union h items item text hget hmem hitem

/-- A concatenation forms what its two parts form, put together. -/
theorem formed_concat (hget : arena.get? h = some (.concat left right)) :
    arena.formed h = Set.image2 (· ++ ·) (arena.formed left) (arena.formed right) := by
  ext text
  constructor
  · intro hforms
    cases hforms with
    | concat _ _ _ first second hother hfirst hsecond =>
        cases hget.symm.trans hother
        exact ⟨first, hfirst, second, hsecond, rfl⟩
    | terminal _ _ hother | union _ _ _ _ hother | eq _ _ _ hother =>
        cases hget.symm.trans hother
  · rintro ⟨first, hfirst, second, hsecond, rfl⟩
    exact .concat h left right first second hget hfirst hsecond

/-- A box that has the values of another forms what the other forms. -/
theorem formed_eq (hget : arena.get? h = some (.eq inner)) :
    arena.formed h = arena.formed inner := by
  ext text
  constructor
  · intro hforms
    cases hforms with
    | eq _ _ _ hother hinner =>
        cases hget.symm.trans hother
        exact hinner
    | terminal _ _ hother | union _ _ _ _ hother | concat _ _ _ _ _ hother =>
        cases hget.symm.trans hother
  · exact .eq h inner text hget

namespace Unfolds

/-! ## Precision -/

/-- What a box forms is more precise than its unfolding at any depth. -/
theorem refined_by_formed (hunfolds : arena.Unfolds depth path h strings warnings) :
    Wildcard.Refines strings (arena.formed h) := by
  induction hunfolds with
  | top _ h hget =>
      rw [formed_leaf hget rfl]
      simpa using Wildcard.Refines.refl ∅
  | terminal _ h value hget =>
      rw [formed_leaf hget rfl]
      simpa [eq_comm] using Wildcard.Refines.refl {value}
  | bottom | parameter | call | pending | cut => exact .marker _
  | union _ h items strings _ hget _ _ ih =>
      rw [formed_union hget]
      exact .unions ih
  | concat _ h left right _ _ _ _ hget _ _ _ ihleft ihright =>
      rw [formed_concat hget]
      exact ihleft.append ihright
  | eq _ h inner _ _ hget _ _ ih =>
      rw [formed_eq hget]
      exact ih

/-- A deeper unfolding along the same path is more precise. -/
theorem refined_by_deeper (hunfolds : arena.Unfolds depth path h strings warnings)
    (hdepth : depth ≤ depth') (hdeeper : arena.Unfolds depth' path h strings' warnings') :
    Wildcard.Refines strings strings' := by
  induction hunfolds generalizing strings' warnings' with
  | top path h hget =>
      rw [(hdeeper.deterministic (.top path h hget)).1]
      exact .refl _
  | terminal path h value hget =>
      rw [(hdeeper.deterministic (.terminal path h value hget)).1]
      exact .refl _
  | bottom | parameter | call | pending | cut => exact .marker _
  | union path h items strings _ hget hcount _ ih =>
      obtain ⟨parts, _, rfl, _, hitems⟩ := hdeeper.of_union hget (hcount.trans hdepth)
      exact .unions fun item hmem => ih item hmem (hitems item hmem)
  | concat path h left right _ _ _ _ hget hcount _ _ ihleft ihright =>
      obtain ⟨first, _, second, _, rfl, _, hleft, hright⟩ :=
        hdeeper.of_concat hget (hcount.trans hdepth)
      exact (ihleft hleft).append (ihright hright)
  | eq path h inner _ _ hget hcount _ ih => exact ih (hdeeper.of_eq hget (hcount.trans hdepth))

end Unfolds

/-- A formed string is found when the depth leaves room for the height of its derivation below the
path. -/
theorem Forms.exists_depth (hforms : arena.Forms h text) :
    ∃ height, ∀ {depth path strings warnings}, path.length + height ≤ depth →
      arena.Unfolds depth path h strings warnings → text ∈ strings := by
  -- No box stands on a path more often than the path is long, so nothing is cut off on the way.
  have hcount : ∀ {path : List Handle} {h : Handle} {height depth : Nat},
      path.length + (height + 1) ≤ depth → path.count h ≤ depth := by
    intro path h height depth hroom
    have hle : path.count h ≤ path.length := List.count_le_length
    omega
  induction hforms with
  | terminal h value hget =>
      refine ⟨0, ?_⟩
      intro depth path strings warnings _ hunfolds
      rw [(hunfolds.deterministic (.terminal path h value hget)).1]
      exact rfl
  | union h items item text hget hmem _ ih =>
      obtain ⟨height, hfound⟩ := ih
      refine ⟨height + 1, ?_⟩
      intro depth path strings warnings hroom hunfolds
      obtain ⟨parts, _, rfl, _, hitems⟩ := hunfolds.of_union hget (hcount hroom)
      refine Set.mem_biUnion hmem (hfound ?_ (hitems item hmem))
      rw [List.length_cons]
      omega
  | concat h left right first second hget _ _ ihleft ihright =>
      obtain ⟨height, hfound⟩ := ihleft
      obtain ⟨height', hfound'⟩ := ihright
      refine ⟨max height height' + 1, ?_⟩
      intro depth path strings warnings hroom hunfolds
      obtain ⟨_, _, _, _, rfl, _, hleft, hright⟩ := hunfolds.of_concat hget (hcount hroom)
      refine Set.mem_image2_of_mem (hfound ?_ hleft) (hfound' ?_ hright) <;>
        rw [List.length_cons] <;> omega
  | eq h inner text hget _ ih =>
      obtain ⟨height, hfound⟩ := ih
      refine ⟨height + 1, ?_⟩
      intro depth path strings warnings hroom hunfolds
      refine hfound ?_ (hunfolds.of_eq hget (hcount hroom))
      rw [List.length_cons]
      omega

/-! ## The solver -/

/-- At every depth, each string without a wildcard that the solver finds for an intact box is one
that the box forms from constants. Conversely the solver finds each string that the box forms, at
every depth from some depth on. -/
theorem solve_bounded_precise (arena : Arena) (root : Handle) (hintact : arena.Intact root) :
    (∀ depth, ∃ solution, arena.solveBounded depth root = .ok solution ∧
      ∀ text ∈ solution.strings, Wildcard.Free text → arena.Forms root text) ∧
    ∀ text, arena.Forms root text → ∃ least, ∀ depth, least ≤ depth →
      ∃ solution, arena.solveBounded depth root = .ok solution ∧ text ∈ solution.strings := by
  constructor
  · intro depth
    obtain ⟨solution, hsolve, hunfolds⟩ := solve_bounded_unfolds hintact depth
    exact ⟨solution, hsolve, hunfolds.refined_by_formed.keeps⟩
  · intro text hforms
    obtain ⟨height, hfound⟩ := hforms.exists_depth
    refine ⟨height, ?_⟩
    intro depth hdepth
    obtain ⟨solution, hsolve, hunfolds⟩ := solve_bounded_unfolds hintact depth
    exact ⟨solution, hsolve, hfound (by simpa using hdepth) hunfolds⟩

/-- The loop forms a string in which a wildcard arises where two constants meet. -/
theorem solve_bounded_precise_append_loop :
    appendLoop.Intact 2 ∧ appendLoop.Forms 2 "a(.*)*)" ∧
      (∃ solution, appendLoop.solveBounded 1 2 = .ok solution ∧
        ∀ text ∈ solution.strings, Wildcard.Free text → appendLoop.Forms 2 text) ∧
      ∃ least, ∀ depth, least ≤ depth →
        ∃ solution, appendLoop.solveBounded depth 2 = .ok solution ∧
          "a(.*)*)" ∈ solution.strings := by
  have hintact : appendLoop.Intact 2 := intact_of_children_lt (by decide) (by decide)
  have honce : appendLoop.Forms 3 ("a(." ++ "*)") :=
    .concat 3 2 1 _ _ rfl (.union 2 [0, 3] 0 _ rfl (by decide) (.terminal 0 _ rfl))
      (.terminal 1 _ rfl)
  have htwice : appendLoop.Forms 3 ("a(." ++ "*)" ++ "*)") :=
    .concat 3 2 1 _ _ rfl (.union 2 [0, 3] 3 _ rfl (by decide) honce) (.terminal 1 _ rfl)
  have hforms : appendLoop.Forms 2 "a(.*)*)" := .union 2 [0, 3] 3 _ rfl (by decide) htwice
  obtain ⟨hexact, hfound⟩ := solve_bounded_precise appendLoop 2 hintact
  exact ⟨hintact, hforms, hexact 1, hfound _ hforms⟩

/-- A larger depth only makes the solution of an intact box more precise: no string without a
wildcard is lost, and every string of the deeper solution matches one of the other. -/
theorem solve_bounded_refined (arena : Arena) (root : Handle) (hintact : arena.Intact root)
    (depth depth' : Nat) (hdepth : depth ≤ depth') :
    ∃ coarse fine, arena.solveBounded depth root = .ok coarse ∧
      arena.solveBounded depth' root = .ok fine ∧
      (∀ text ∈ coarse.strings, Wildcard.Free text → text ∈ fine.strings) ∧
      ∀ text ∈ fine.strings, ∃ pattern ∈ coarse.strings, Wildcard.Matches pattern text := by
  obtain ⟨coarse, hcoarse, hunfolds⟩ := solve_bounded_unfolds hintact depth
  obtain ⟨fine, hfine, hdeeper⟩ := solve_bounded_unfolds hintact depth'
  have hrefines := hunfolds.refined_by_deeper hdepth hdeeper
  exact ⟨coarse, fine, hcoarse, hfine, hrefines.keeps, hrefines.covered⟩

/-- Three more rounds of the loop make its solution more precise. -/
theorem solve_bounded_refined_append_loop :
    appendLoop.Intact 2 ∧
      ∃ coarse fine, appendLoop.solveBounded 0 2 = .ok coarse ∧
        appendLoop.solveBounded 3 2 = .ok fine ∧
        (∀ text ∈ coarse.strings, Wildcard.Free text → text ∈ fine.strings) ∧
        ∀ text ∈ fine.strings, ∃ pattern ∈ coarse.strings, Wildcard.Matches pattern text := by
  have hintact : appendLoop.Intact 2 := intact_of_children_lt (by decide) (by decide)
  exact ⟨hintact, solve_bounded_refined appendLoop 2 hintact 0 3 (by decide)⟩

end Arena

end StringReach
