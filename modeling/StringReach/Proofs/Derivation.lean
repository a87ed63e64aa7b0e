import StringReach.Proofs.Bounded

/-!
# The bounded solver covers every derivable string

`Derives` gives the strings of a box by rules that may go around a cycle any number of times. A
string of a solution stands for all texts that it `Matches`, in which each wildcard has become some
text. `Unfolds.covers` says that no derivable string is lost, however small the depth.
-/

namespace StringReach

namespace Wildcard

/-- `Fills pattern text` says that `text` arises when each marker in `pattern`, found from the left,
is replaced by some text and everything else is kept. -/
inductive Fills : List Char → List Char → Prop where
  | nil : Fills [] []
  | marker (text rest other) : Fills rest other →
      Fills ('(' :: '.' :: '*' :: ')' :: rest) (text ++ other)
  | keep (c rest other) : (∀ tail, c :: rest ≠ '(' :: '.' :: '*' :: ')' :: tail) →
      Fills rest other → Fills (c :: rest) (c :: other)

/-- A text matches a string with wildcards when each wildcard may stand for a part of it. -/
def Matches (pattern text : String) : Prop :=
  Fills pattern.toList text.toList

/-- Any character may be kept, also where a marker begins: the marker then stands for itself. -/
theorem Fills.cons (c : Char) {rest other : List Char} (hfills : Fills rest other) :
    Fills (c :: rest) (c :: other) := by
  by_cases hmarker : ∃ tail, c :: rest = '(' :: '.' :: '*' :: ')' :: tail
  · obtain ⟨tail, heq⟩ := hmarker
    cases heq
    -- None of the characters after the first begins a marker, so each of them was kept.
    cases hfills with
    | keep _ _ _ _ hfills =>
        cases hfills with
        | keep _ _ _ _ hfills =>
            cases hfills with
            | keep _ _ other _ hfills => exact .marker ['(', '.', '*', ')'] tail other hfills
  · exact .keep c rest other (fun tail heq => hmarker ⟨tail, heq⟩) hfills

/-- Filling two patterns fills the one followed by the other, also when a marker arises where they
meet. -/
theorem Fills.append {first second text other : List Char} (hfirst : Fills first text)
    (hsecond : Fills second other) : Fills (first ++ second) (text ++ other) := by
  induction hfirst with
  | nil => exact hsecond
  | marker text rest between _ ih =>
      rw [List.append_assoc]
      exact .marker text _ _ ih
  | keep c rest between _ _ ih => exact .cons c ih

/-- Every text matches itself. -/
theorem Matches.refl (text : String) : Matches text text := by
  show Fills text.toList text.toList
  induction text.toList with
  | nil => exact .nil
  | cons c rest ih => exact .cons c ih

/-- Every text matches the wildcard. -/
theorem matches_marker (text : String) : Matches Wildcard.marker text := by
  have hfills := Fills.marker text.toList [] [] .nil
  rw [List.append_nil] at hfills
  exact hfills

/-- What matches two strings matches, put together, the two strings put together. -/
theorem Matches.append {first second text other : String} (hfirst : Matches first text)
    (hsecond : Matches second other) : Matches (first ++ second) (text ++ other) := by
  show Fills (first ++ second).toList (text ++ other).toList
  rw [String.toList_append, String.toList_append]
  exact Fills.append hfirst hsecond

end Wildcard

namespace Arena

/-- `Derives arena h text` says that `text` is a value of the box. -/
inductive Derives (arena : Arena) : Handle → String → Prop where
  | terminal (h value) : arena.get? h = some (.terminal value) → Derives arena h value
  | bottom (h text) : arena.get? h = some .bottom → Derives arena h text
  | parameter (h text) : arena.get? h = some .parameter → Derives arena h text
  | call (h callee text) : arena.get? h = some (.call callee) → Derives arena h text
  | pending (h text) : arena.get? h = some .pending → Derives arena h text
  | union (h items item text) : arena.get? h = some (.union items) → item ∈ items →
      Derives arena item text → Derives arena h text
  | concat (h left right first second) : arena.get? h = some (.concat left right) →
      Derives arena left first → Derives arena right second → Derives arena h (first ++ second)
  | eq (h inner text) : arena.get? h = some (.eq inner) → Derives arena inner text →
      Derives arena h text

variable {arena : Arena} {depth : Nat} {path : List Handle} {h : Handle} {strings : Set String}
  {warnings : Nat}

/-- Every string that a box derives matches a string of its unfolding. -/
theorem Unfolds.covers (hunfolds : arena.Unfolds depth path h strings warnings) {text : String}
    (hderives : arena.Derives h text) : ∃ pattern ∈ strings, Wildcard.Matches pattern text := by
  induction hunfolds generalizing text with
  | top _ h hget => cases hderives <;> simp_all
  | bottom | parameter | call | pending | cut =>
      exact ⟨_, rfl, Wildcard.matches_marker text⟩
  | terminal _ h value hget =>
      cases hderives with
      | terminal _ value' hother =>
          cases hget.symm.trans hother
          exact ⟨value, rfl, .refl value⟩
      | bottom | parameter | call | pending | union | concat | eq => simp_all
  | union _ h items strings _ hget _ _ ih =>
      cases hderives with
      | union _ _ item _ hother hmem hitem =>
          cases hget.symm.trans hother
          obtain ⟨pattern, hpattern, hmatches⟩ := ih item hmem hitem
          exact ⟨pattern, Set.mem_biUnion hmem hpattern, hmatches⟩
      | terminal | bottom | parameter | call | pending | concat | eq => simp_all
  | concat _ h left right _ _ _ _ hget _ _ _ ihleft ihright =>
      cases hderives with
      | concat _ _ _ first second hother hleft hright =>
          cases hget.symm.trans hother
          obtain ⟨pattern, hpattern, hmatches⟩ := ihleft hleft
          obtain ⟨pattern', hpattern', hmatches'⟩ := ihright hright
          exact ⟨pattern ++ pattern', Set.mem_image2_of_mem hpattern hpattern',
            hmatches.append hmatches'⟩
      | terminal | bottom | parameter | call | pending | union | eq => simp_all
  | eq _ h inner _ _ hget _ _ ih =>
      cases hderives with
      | eq _ _ _ hother hinner =>
          cases hget.symm.trans hother
          exact ih hinner
      | terminal | bottom | parameter | call | pending | union | concat => simp_all

/-- Whatever the depth, every string that an intact box derives matches a string of its solution. -/
theorem solve_bounded_covers (arena : Arena) (depth : Nat) (root : Handle)
    (hintact : arena.Intact root) :
    ∃ solution, arena.solveBounded depth root = .ok solution ∧
      ∀ text, arena.Derives root text →
        ∃ pattern ∈ solution.strings, Wildcard.Matches pattern text := by
  obtain ⟨solution, hsolve, hunfolds⟩ := solve_bounded_unfolds hintact depth
  exact ⟨solution, hsolve, fun _ hderives => hunfolds.covers hderives⟩

/-- A loop that appends to a constant, with a marker arising where the two constants meet. -/
def appendLoop : Arena where
  slots := #[.terminal "a(.", .terminal "*)", .union [0, 3], .concat 2 1]

/-- Two rounds of the loop derive a string, and the solution without any unrolling still has a
pattern for it. -/
theorem solve_bounded_covers_append_loop :
    appendLoop.Intact 2 ∧ appendLoop.Derives 2 "a(.*)*)" ∧
      ∃ solution, appendLoop.solveBounded 0 2 = .ok solution ∧
        ∃ pattern ∈ solution.strings, Wildcard.Matches pattern "a(.*)*)" := by
  have hintact : appendLoop.Intact 2 := intact_of_children_lt (by decide) (by decide)
  have honce : appendLoop.Derives 3 ("a(." ++ "*)") :=
    .concat 3 2 1 _ _ rfl (.union 2 [0, 3] 0 _ rfl (by decide) (.terminal 0 _ rfl))
      (.terminal 1 _ rfl)
  have htwice : appendLoop.Derives 3 ("a(." ++ "*)" ++ "*)") :=
    .concat 3 2 1 _ _ rfl (.union 2 [0, 3] 3 _ rfl (by decide) honce) (.terminal 1 _ rfl)
  have hderives : appendLoop.Derives 2 "a(.*)*)" :=
    .union 2 [0, 3] 3 _ rfl (by decide) htwice
  obtain ⟨solution, hsolve, hcovers⟩ := solve_bounded_covers appendLoop 0 2 hintact
  exact ⟨hintact, hderives, solution, hsolve, hcovers _ hderives⟩

end Arena

end StringReach
