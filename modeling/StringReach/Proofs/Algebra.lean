import Mathlib.Data.List.Perm.Basic
import StringReach.Proofs.Solution

/-!
# The algebra of solutions

Merging is a commutative monoid and concatenation a monoid, and on the strings alone the two make an
idempotent semiring (`merge_concat_algebra`). The laws are read off the languages: a string that
several pairs of strings make is in the set once, so no list of pairs need be compared. Warnings are
counted and not collected, which is why a law that names a value twice is about strings only.
-/

namespace StringReach.Solution

/-- Solutions have the same strings if and only if they have the same language. -/
theorem strings_eq_iff {a b : Solution} : a.strings = b.strings ↔ a.language = b.language := by
  constructor
  · intro hstrings
    ext text
    rw [mem_language, mem_language, hstrings]
  · intro hlanguage
    exact Std.ExtTreeSet.ext_mem fun text => Set.ext_iff.mp hlanguage text

/-- A solution has no strings if and only if its language is empty. -/
theorem strings_eq_empty_iff {a : Solution} : a.strings = ∅ ↔ a.language = ∅ := by
  rw [← language_empty]
  exact strings_eq_iff (b := empty)

/-! ## Merging -/

/-- Merging adds the warnings. -/
@[simp] theorem warnings_merge (a b : Solution) : (a.merge b).warnings = a.warnings + b.warnings :=
  rfl

/-- The order of two merged values does not matter. -/
theorem merge_comm (a b : Solution) : a.merge b = b.merge a := by
  refine ext_language ?_ ?_
  · rw [language_merge, language_merge, Set.union_comm]
  · exact Nat.add_comm ..

/-- Three values may be merged in either grouping. -/
theorem merge_assoc (a b c : Solution) : (a.merge b).merge c = a.merge (b.merge c) := by
  refine ext_language ?_ ?_
  · simp only [language_merge, Set.union_assoc]
  · exact Nat.add_assoc ..

/-- The empty value adds nothing on the left. -/
theorem empty_merge (a : Solution) : empty.merge a = a := by
  refine ext_language ?_ ?_
  · rw [language_merge, language_empty, Set.empty_union]
  · exact Nat.zero_add _

/-- The empty value adds nothing on the right. -/
theorem merge_empty (a : Solution) : a.merge empty = a := by
  rw [merge_comm, empty_merge]

/-- Merging a value with itself adds no strings. -/
theorem strings_merge_self (a : Solution) : (a.merge a).strings = a.strings := by
  rw [strings_eq_iff, language_merge, Set.union_self]

instance : Std.Commutative merge := ⟨merge_comm⟩

instance : Std.Associative merge := ⟨merge_assoc⟩

/-! ## Concatenating -/

/-- Concatenating adds the warnings. -/
@[simp] theorem warnings_concat (a b : Solution) :
    (a.concat b).warnings = a.warnings + b.warnings :=
  rfl

/-- Three values may be concatenated in either grouping. -/
theorem concat_assoc (a b c : Solution) : (a.concat b).concat c = a.concat (b.concat c) := by
  refine ext_language ?_ ?_
  · simp only [language_concat]
    exact Set.image2_assoc fun _ _ _ => String.append_assoc
  · exact Nat.add_assoc ..

/-- The empty text changes nothing on the left. -/
theorem literal_empty_concat (a : Solution) : (literal "").concat a = a := by
  refine ext_language ?_ ?_
  · rw [language_concat, language_literal]
    exact Set.image2_left_identity (fun _ => String.empty_append) _
  · exact Nat.zero_add _

/-- The empty text changes nothing on the right. -/
theorem concat_literal_empty (a : Solution) : a.concat (literal "") = a := by
  refine ext_language ?_ ?_
  · rw [language_concat, language_literal]
    exact Set.image2_right_identity (fun _ => String.append_empty) _
  · exact Nat.add_zero _

/-- Literals are concatenated as their texts are. -/
theorem concat_literal (first second : String) :
    (literal first).concat (literal second) = literal (first ++ second) := by
  refine ext_language ?_ rfl
  rw [language_concat, language_literal, language_literal, language_literal, Set.image2_singleton]

/-- A concatenation has no strings if and only if one of its sides has none. -/
theorem strings_concat_eq_empty_iff (a b : Solution) :
    (a.concat b).strings = ∅ ↔ a.strings = ∅ ∨ b.strings = ∅ := by
  simp only [strings_eq_empty_iff, language_concat, Set.image2_eq_empty_iff]

/-! ## Both together -/

/-- A value is put before each of two merged values. The warnings of the value count once on one
side and twice on the other. -/
theorem strings_concat_merge (a b c : Solution) :
    (a.concat (b.merge c)).strings = ((a.concat b).merge (a.concat c)).strings := by
  rw [strings_eq_iff]
  simp only [language_concat, language_merge, Set.image2_union_right]

/-- A value is put after each of two merged values. -/
theorem strings_merge_concat (a b c : Solution) :
    ((a.merge b).concat c).strings = ((a.concat c).merge (b.concat c)).strings := by
  rw [strings_eq_iff]
  simp only [language_concat, language_merge, Set.image2_union_left]

/-! ## Merging several values -/

/-- The order of the values does not matter. -/
theorem merge_all_perm {parts parts' : List Solution} (hperm : parts.Perm parts') :
    mergeAll parts = mergeAll parts' :=
  hperm.foldl_eq empty

/-- The values of two lists are merged one list at a time. -/
theorem merge_all_append (parts others : List Solution) :
    mergeAll (parts ++ others) = (mergeAll parts).merge (mergeAll others) := by
  calc mergeAll (parts ++ others)
      = others.foldl merge (mergeAll parts) := List.foldl_append
    _ = others.foldl merge ((mergeAll parts).merge empty) := by rw [merge_empty]
    _ = (mergeAll parts).merge (mergeAll others) := List.foldl_assoc

/-- The values of several lists are merged one list at a time. -/
theorem merge_all_flatten (groups : List (List Solution)) :
    mergeAll groups.flatten = mergeAll (groups.map mergeAll) := by
  induction groups with
  | nil => rfl
  | cons group rest ih =>
      have hone : mergeAll [mergeAll group] = mergeAll group := empty_merge _
      rw [List.flatten_cons, merge_all_append, ih, List.map_cons, ← List.singleton_append,
        merge_all_append, hone]

/-- Merging is commutative and associative with the empty solution as unit. Concatenating is
associative with the empty text as unit, and goes by texts on literals. On the strings, merging is
idempotent, concatenating distributes over it from both sides, and a concatenation is without
strings exactly if one of its sides is. The warnings are added by both. So several values make the
same solution in whatever order they are merged, and in whatever groups. -/
theorem merge_concat_algebra :
    ((∀ a b : Solution, a.merge b = b.merge a) ∧
      (∀ a b c : Solution, (a.merge b).merge c = a.merge (b.merge c)) ∧
      ∀ a : Solution, empty.merge a = a ∧ a.merge empty = a) ∧
    ((∀ a b c : Solution, (a.concat b).concat c = a.concat (b.concat c)) ∧
      (∀ a : Solution, (literal "").concat a = a ∧ a.concat (literal "") = a) ∧
      ∀ first second, (literal first).concat (literal second) = literal (first ++ second)) ∧
    ((∀ a : Solution, (a.merge a).strings = a.strings) ∧
      (∀ a b c : Solution,
        (a.concat (b.merge c)).strings = ((a.concat b).merge (a.concat c)).strings ∧
        ((a.merge b).concat c).strings = ((a.concat c).merge (b.concat c)).strings) ∧
      ∀ a b : Solution, (a.concat b).strings = ∅ ↔ a.strings = ∅ ∨ b.strings = ∅) ∧
    (∀ a b : Solution, (a.merge b).warnings = a.warnings + b.warnings ∧
      (a.concat b).warnings = a.warnings + b.warnings) ∧
    (∀ parts parts' : List Solution, parts.Perm parts' → mergeAll parts = mergeAll parts') ∧
    ∀ groups : List (List Solution), mergeAll (groups.map mergeAll) = mergeAll groups.flatten := by
  refine ⟨⟨merge_comm, merge_assoc, ?_⟩, ⟨concat_assoc, ?_, concat_literal⟩,
    ⟨strings_merge_self, ?_, strings_concat_eq_empty_iff⟩, ?_, ?_, ?_⟩
  · intro a
    exact ⟨empty_merge a, merge_empty a⟩
  · intro a
    exact ⟨literal_empty_concat a, concat_literal_empty a⟩
  · intro a b c
    exact ⟨strings_concat_merge a b c, strings_merge_concat a b c⟩
  · intro a b
    exact ⟨warnings_merge a b, warnings_concat a b⟩
  · intro parts parts' hperm
    exact merge_all_perm hperm
  · intro groups
    exact (merge_all_flatten groups).symm

/-- An unknown value and two texts, one of them twice, with the first two moved to the end. -/
theorem merge_concat_algebra_shuffled :
    [literal "a", warning, literal "aa", literal "a"].Perm
        [literal "aa", literal "a", literal "a", warning] ∧
      mergeAll [literal "a", warning, literal "aa", literal "a"] =
        mergeAll [literal "aa", literal "a", literal "a", warning] := by
  have hperm : ([literal "a", warning] ++ [literal "aa", literal "a"]).Perm
      ([literal "aa", literal "a"] ++ [literal "a", warning]) := List.perm_append_comm
  obtain ⟨_, _, _, _, hshuffled, _⟩ := merge_concat_algebra
  exact ⟨hperm, hshuffled _ _ hperm⟩

end StringReach.Solution
