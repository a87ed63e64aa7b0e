import StringReach.Proofs.PatternInstances

/-!
# Strings of wildcards only

A string without literal text consists of markers in a row (`Wildcard.is_unconstrained_iff`). Read
as a pattern it is a row of runs, and one run is enough to match every text without a line break. No
run at all matches the empty text only: the empty string has no literal text either, and it is the
one string of this kind that says something about the text that it matches (`unconstrained_exact`).
-/

namespace StringReach

namespace Wildcard

/-- Markers in a row. -/
def markers : Nat → List Char
  | 0 => []
  | count + 1 => marker.toList ++ markers count

/-- A row of markers begins with a marker, character by character. -/
theorem markers_succ (count : Nat) :
    markers (count + 1) = '(' :: '.' :: '*' :: ')' :: markers count :=
  rfl

/-- The pieces between markers in a row are empty. -/
theorem pieces_markers (count : Nat) : pieces (markers count) = List.replicate (count + 1) [] := by
  induction count with
  | zero => rfl
  | succ count ih => rw [markers_succ, pieces, ih]; rfl

/-- A text whose pieces are empty consists of markers in a row. -/
theorem exists_markers {text : List Char} (hpieces : (pieces text).all List.isEmpty = true) :
    ∃ count, text = markers count := by
  induction text using pieces.induct with
  | case1 => exact ⟨0, rfl⟩
  | case2 rest ih =>
      rw [pieces, List.all_cons, Bool.and_eq_true] at hpieces
      obtain ⟨count, rfl⟩ := ih hpieces.2
      exact ⟨count + 1, rfl⟩
  | case3 c rest _ hrest _ => simp [pieces, hrest] at hpieces
  | case4 c rest _ first others hrest _ => simp [pieces, hrest] at hpieces

/-- A string has no literal text exactly if it consists of markers in a row. -/
theorem is_unconstrained_iff {text : String} :
    isUnconstrained text = true ↔ ∃ count, text.toList = markers count := by
  constructor
  · exact exists_markers
  · intro hmarkers
    obtain ⟨count, htext⟩ := hmarkers
    rw [isUnconstrained, htext, pieces_markers]
    simp

end Wildcard

namespace Pattern

variable {engine : Engine} {fits : String → Prop} {source candidate : String}
  {pattern empty : Pattern}

/-- Runs before empty pieces are all that there is. -/
theorem flat_map_zip_replicate (runs : List (List Char)) :
    (runs.zip (List.replicate runs.length [])).flatMap (fun part => part.1 ++ part.2) =
      runs.flatten := by
  induction runs with
  | nil => rfl
  | cons run runs ih => simp [List.replicate_succ, ih]

/-- Empty pieces with a run before each but the first make up any text without a line break, unless
there is only one piece. -/
theorem exists_runs_iff {count : Nat} {text : List Char} :
    (∃ runs : List (List Char), runs.length = (List.replicate count ([] : List Char)).length ∧
      (∀ run ∈ runs, '\n' ∉ run) ∧
      text = [] ++ (runs.zip (List.replicate count [])).flatMap fun part => part.1 ++ part.2) ↔
    '\n' ∉ text ∧ (count = 0 → text = []) := by
  rw [List.length_replicate]
  constructor
  · rintro ⟨runs, rfl, hruns, rfl⟩
    rw [List.nil_append, flat_map_zip_replicate, List.mem_flatten]
    refine ⟨fun ⟨run, hmem, hline⟩ => hruns run hmem hline, fun hnone => ?_⟩
    rw [List.length_eq_zero_iff.mp hnone, List.flatten_nil]
  · rintro ⟨hline, hnone⟩
    cases count with
    | zero => exact ⟨[], rfl, by simp, hnone rfl⟩
    | succ count =>
        -- The first run takes the whole text.
        exact ⟨text :: List.replicate count [], by simp, by simp [hline], by
          simp [List.replicate_succ, List.zip_replicate']⟩

/-- Markers in a row match every text without a line break, unless there is none. -/
theorem accepts_markers_iff (hengine : engine.Documented fits)
    (hcompile : compile engine source = .ok pattern) {count : Nat}
    (hsource : source.toList = Wildcard.markers count) :
    pattern.accepts candidate = true ↔
      '\n' ∉ candidate.toList ∧ (count = 0 → candidate = "") := by
  have hpieces : Wildcard.pieces source.toList = [] :: List.replicate count [] := by
    rw [hsource, Wildcard.pieces_markers, List.replicate_succ]
  rw [accepts_iff_found hengine hcompile, found_parts_iff hpieces, exists_runs_iff,
    String.toList_eq_nil_iff]

/-- Only a pattern without literal text matches the empty text. -/
theorem is_unconstrained_of_accepts_empty (hengine : engine.Documented fits)
    (hcompile : compile engine source = .ok pattern) (haccepts : pattern.accepts "" = true) :
    Wildcard.isUnconstrained source = true := by
  obtain ⟨first, rest, hpieces⟩ := (Wildcard.splits_pieces source.toList).exists_cons
  rw [accepts_iff_found hengine hcompile, found_parts_iff hpieces] at haccepts
  obtain ⟨runs, hlength, _, htext⟩ := haccepts
  obtain ⟨hfirst, hpairs⟩ := List.append_eq_nil_iff.mp htext.symm
  have hrest : ∀ piece ∈ rest, piece = [] := by
    intro piece hmem
    rw [← List.map_snd_zip hlength.ge] at hmem
    obtain ⟨pair, hpair, rfl⟩ := List.mem_map.mp hmem
    exact (List.append_eq_nil_iff.mp (List.flatMap_eq_nil_iff.mp hpairs pair hpair)).2
  simpa [Wildcard.isUnconstrained, hpieces, hfirst] using hrest

/-- The empty pattern matches the empty text only. -/
theorem accepts_empty_iff (hengine : engine.Documented fits)
    (hempty : compile engine "" = .ok empty) :
    empty.accepts candidate = true ↔ candidate = "" := by
  rw [accepts_markers_iff hengine hempty (show "".toList = Wildcard.markers 0 from rfl)]
  constructor
  · exact fun haccepts => haccepts.2 rfl
  · rintro rfl
    simp

/-- A pattern matches every text without a line break exactly if it has a wildcard and no literal
text. -/
theorem accepts_all_iff (hengine : engine.Documented fits)
    (hcompile : compile engine source = .ok pattern) :
    (∀ candidate : String, '\n' ∉ candidate.toList → pattern.accepts candidate = true) ↔
    Wildcard.isUnconstrained source = true ∧ source ≠ "" := by
  constructor
  · intro hall
    refine ⟨is_unconstrained_of_accepts_empty hengine hcompile (hall "" (by simp)), ?_⟩
    rintro rfl
    exact absurd ((accepts_empty_iff hengine hcompile).mp (hall "a" (by decide))) (by decide)
  · intro hmarked candidate hline
    obtain ⟨hunconstrained, hsource⟩ := hmarked
    obtain ⟨count, hmarkers⟩ := Wildcard.is_unconstrained_iff.mp hunconstrained
    refine (accepts_markers_iff hengine hcompile hmarkers).mpr ⟨hline, ?_⟩
    rintro rfl
    exact absurd (String.toList_eq_nil_iff.mp hmarkers) hsource

/-- With an engine that works as documented, a string whose expression fits is found to say nothing
exactly if it is empty or its pattern matches every text without a line break. The finding is right
for every string but the empty one, whose pattern matches the empty text only. -/
theorem unconstrained_exact (hengine : engine.Documented fits) (source : String)
    (hfits : fits (expression engine source)) (hempty : fits (expression engine "")) :
    ∃ pattern empty, compile engine source = .ok pattern ∧ compile engine "" = .ok empty ∧
      ((Wildcard.isUnconstrained source = true ↔
          ∀ candidate : String, '\n' ∉ candidate.toList → pattern.accepts candidate = true) ↔
        source ≠ "") ∧
      (Wildcard.isUnconstrained source = true ↔
        source = "" ∨
          ∀ candidate : String, '\n' ∉ candidate.toList → pattern.accepts candidate = true) ∧
      ∀ candidate : String, empty.accepts candidate = true ↔ candidate = "" := by
  have hnothing : Wildcard.isUnconstrained "" = true := by decide
  obtain ⟨pattern, hcompile⟩ := exists_compile hengine hfits
  obtain ⟨empty, hempty⟩ := exists_compile hengine hempty
  refine ⟨pattern, empty, hcompile, hempty, ?_, ?_, fun _ => accepts_empty_iff hengine hempty⟩
  · rw [accepts_all_iff hengine hcompile, iff_self_and]
    constructor
    · rintro hright rfl
      exact hright hnothing rfl
    · exact fun hsource _ => hsource
  · rw [accepts_all_iff hengine hcompile]
    constructor
    · intro hunconstrained
      by_cases hsource : source = ""
      · exact .inl hsource
      · exact .inr ⟨hunconstrained, hsource⟩
    · intro hcase
      rcases hcase with rfl | hall
      · exact hnothing
      · exact hall.1

/-- Markers in a row are spelled as runs. -/
theorem spelled_markers {count : Nat} (hsource : source.toList = Wildcard.markers count) :
    (parts source).flatMap Engine.Part.spelled =
      .start :: (List.replicate count .run ++ [.stop]) := by
  have hpieces : (partsOfPieces (List.replicate (count + 1) [])).flatMap Engine.Part.spelled =
      List.replicate count .run := by
    clear hsource
    induction count with
    | zero => rfl
    | succ count ih =>
        have hmore : partsOfPieces (List.replicate (count + 2) []) =
            .literal (String.ofList []) :: .run ::
              partsOfPieces (List.replicate (count + 1) []) := rfl
        rw [hmore, List.flatMap_cons, List.flatMap_cons, ih, List.replicate_succ]
        rfl
  rw [parts, hsource, Wildcard.pieces_markers, List.flatMap_cons, List.flatMap_append, hpieces]
  rfl

/-- Runs in a row have at least their sizes together, whatever follows them. -/
theorem mul_size_run_le (count : Nat) (rest : List Engine.Part) :
    Engine.Part.run.size * count ≤
      ((List.replicate count Engine.Part.run ++ rest).map Engine.Part.size).foldr (· + ·) 0 := by
  induction count with
  | zero => exact Nat.zero_le _
  | succ count ih =>
      rw [List.replicate_succ, List.cons_append, List.map_cons, List.foldr_cons, Nat.mul_succ]
      omega

/-- The small engine refuses too many markers in a row. -/
theorem standard_refuses_markers {count : Nat} (hsource : source.toList = Wildcard.markers count)
    (hcount : Engine.sizeLimit < Engine.Part.run.size * count) :
    ∃ reason, Engine.standard.compile (expression .standard source) = .error reason := by
  have hruns := mul_size_run_le count [.stop]
  rw [expression_eq_write, Engine.standard_compile (Engine.parts?_write _),
    spelled_markers hsource, List.map_cons, List.foldr_cons]
  exact ⟨_, if_pos (by omega)⟩

/-- The expression of the empty string is within the limit of the small engine. -/
theorem expression_empty_within_limit : Engine.WithinLimit (expression .standard "") := by
  rw [expression_eq_write, Engine.within_limit_write_iff]
  decide

/-- With the small engine, the finding is right for two markers in a row. -/
theorem unconstrained_exact_two_markers :
    Engine.WithinLimit (expression .standard "(.*)(.*)") ∧
    Engine.WithinLimit (expression .standard "") ∧
    ∃ pattern empty, compile .standard "(.*)(.*)" = .ok pattern ∧
      compile .standard "" = .ok empty ∧
      ((Wildcard.isUnconstrained "(.*)(.*)" = true ↔
          ∀ candidate : String, '\n' ∉ candidate.toList → pattern.accepts candidate = true) ↔
        "(.*)(.*)" ≠ "") ∧
      (Wildcard.isUnconstrained "(.*)(.*)" = true ↔
        "(.*)(.*)" = "" ∨
          ∀ candidate : String, '\n' ∉ candidate.toList → pattern.accepts candidate = true) ∧
      ∀ candidate : String, empty.accepts candidate = true ↔ candidate = "" := by
  have hfits : Engine.WithinLimit (expression .standard "(.*)(.*)") := by
    rw [expression_eq_write, Engine.within_limit_write_iff]
    decide
  exact ⟨hfits, expression_empty_within_limit,
    unconstrained_exact Engine.standard_documented _ hfits expression_empty_within_limit⟩

/-- The empty string is found to say nothing, and as a pattern it refuses a name. -/
theorem empty_unconstrained_and_refusing :
    ∃ empty, compile .standard "" = .ok empty ∧
      ¬ (Wildcard.isUnconstrained "" = true ↔
        ∀ candidate : String, '\n' ∉ candidate.toList → empty.accepts candidate = true) := by
  obtain ⟨empty, hempty⟩ :=
    exists_compile Engine.standard_documented expression_empty_within_limit
  refine ⟨empty, hempty, fun hright => ?_⟩
  have haccepts := hright.mp (by decide) "a" (by decide)
  exact absurd ((accepts_empty_iff Engine.standard_documented hempty).mp haccepts) (by decide)

end Pattern

end StringReach
