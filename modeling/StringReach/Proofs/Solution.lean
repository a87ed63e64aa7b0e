import Mathlib.Algebra.GroupWithZero.Nat
import Mathlib.Data.Set.Lattice
import Mathlib.Data.Set.NAry
import StringReach.Solution.Basic

/-!
# Solutions as sets of strings

A solution is its set of strings and its count of warnings (`ext_language`). The lemmas below say
what each way of making a solution does to the two. The counter of the warnings is added in a word
(`counter_merge`), so it keeps the order of the warnings only while they fit (`counter_le_counter`).
-/

namespace StringReach.Solution

/-- The strings of a solution. -/
def language (solution : Solution) : Set String :=
  {text | text ∈ solution.strings}

/-- A string of a solution is one of its language. -/
theorem mem_language {solution : Solution} {text : String} :
    text ∈ solution.language ↔ text ∈ solution.strings :=
  Iff.rfl

/-- Solutions with the same strings and as many warnings are equal. -/
theorem ext_language {a b : Solution} (hlanguage : a.language = b.language)
    (hwarnings : a.warnings = b.warnings) : a = b := by
  obtain ⟨strings, warnings⟩ := a
  obtain ⟨strings', warnings'⟩ := b
  have hstrings : strings = strings' :=
    Std.ExtTreeSet.ext_mem fun text => Set.ext_iff.mp hlanguage text
  cases hstrings
  cases hwarnings
  rfl

/-! ## Single values -/

/-- The empty value has no strings. -/
@[simp] theorem language_empty : empty.language = ∅ :=
  Set.eq_empty_of_forall_notMem fun _ => Std.ExtTreeSet.not_mem_empty

/-- A literal has one string. -/
@[simp] theorem language_literal (text : String) : (literal text).language = {text} := by
  ext other
  rw [mem_language, Set.mem_singleton_iff]
  show other ∈ (∅ : Std.ExtTreeSet String).insert text ↔ other = text
  rw [Std.ExtTreeSet.mem_insert, Std.LawfulEqCmp.compare_eq_iff_eq]
  simp [eq_comm]

/-- The wildcard has its marker as its string. -/
@[simp] theorem language_wildcard : wildcard.language = {Wildcard.marker} :=
  language_literal _

/-- An unknown value has no strings. -/
@[simp] theorem language_warning : warning.language = ∅ :=
  language_empty

/-- A box that is cut off has the marker as its string. -/
@[simp] theorem language_cut : cut.language = {Wildcard.marker} :=
  language_literal _

/-! ## Values put together -/

/-- Merging takes the strings of both values. -/
@[simp] theorem language_merge (a b : Solution) :
    (a.merge b).language = a.language ∪ b.language :=
  Set.ext fun _ => Std.ExtTreeSet.mem_union_iff

/-- The strings of several values are those of each. -/
theorem language_merge_all (parts : List Solution) :
    (mergeAll parts).language = ⋃ part ∈ parts, part.language := by
  have hfold : ∀ start : Solution, (parts.foldl merge start).language =
      start.language ∪ ⋃ part ∈ parts, part.language := by
    induction parts with
    | nil => simp
    | cons part rest ih =>
        intro start
        rw [List.foldl_cons, ih, language_merge, Set.union_assoc]
        congr 1
        ext text
        simp
  rw [mergeAll, hfold, language_empty, Set.empty_union]

/-- The warnings of several values are added. -/
theorem warnings_merge_all (parts : List Solution) :
    (mergeAll parts).warnings = (parts.map warnings).sum := by
  have hfold : ∀ start : Solution, (parts.foldl merge start).warnings =
      start.warnings + (parts.map warnings).sum := by
    induction parts with
    | nil => simp
    | cons part rest ih =>
        intro start
        rw [List.foldl_cons, ih, List.map_cons, List.sum_cons, ← Nat.add_assoc]
        rfl
  rw [mergeAll, hfold]
  exact Nat.zero_add _

/-- A further value is merged last. -/
theorem merge_all_concat (parts : List Solution) (part : Solution) :
    mergeAll (parts ++ [part]) = (mergeAll parts).merge part := by
  rw [mergeAll, List.foldl_append]
  rfl

/-- Merging two values one after the other is merging them. -/
theorem merge_all_pair (a b : Solution) : mergeAll [a, b] = a.merge b := by
  refine ext_language ?_ ?_
  · rw [language_merge_all, language_merge]
    simp
  · rw [warnings_merge_all]
    simp [merge]

/-- Every string of the one value is followed by every string of the other. -/
theorem language_concat (a b : Solution) :
    (a.concat b).language = Set.image2 (· ++ ·) a.language b.language := by
  ext text
  rw [mem_language, Set.mem_image2]
  simp only [concat, Std.ExtTreeSet.mem_ofList, List.contains_iff_mem, List.mem_flatMap,
    List.mem_map, Std.ExtTreeSet.mem_toList, mem_language]

/-! ## Counters -/

/-- Merging adds the counters in a word. -/
theorem counter_merge (a b : Solution) : (a.merge b).counter = a.counter + b.counter :=
  UInt64.ofNat_add _ _

/-- Joining adds the counters in a word. -/
theorem counter_concat (a b : Solution) : (a.concat b).counter = a.counter + b.counter :=
  UInt64.ofNat_add _ _

end StringReach.Solution
