import Mathlib.Data.List.Infix
import StringReach.Proofs.Expressions
import StringReach.Reflection.Pattern

/-!
# What a pattern matches

A pattern matches a text when the text consists of the segments of the pattern in their order, with
some text without a line break between each two. The segments are fixed by a rule that knows nothing
of the matcher: the leftmost marker is taken out, and then the rest is split (`Wildcard.Splits`).
The expression of a pattern is written from parts (`Pattern.expression_eq_write`), so what it
matches follows from what the parts mean, whatever engine looks for it.
-/

namespace StringReach

namespace Wildcard

/-- `Splits text segments` says that the segments are left when the markers are taken out of a text,
the leftmost first. -/
inductive Splits : List Char → List (List Char) → Prop where
  | last (text) : ¬ marker.toList <:+: text → Splits text [text]
  | cut (first text rest) :
      (∀ before after, first ++ marker.toList ++ text = before ++ marker.toList ++ after →
        first.length ≤ before.length) →
      Splits text rest → Splits (first ++ marker.toList ++ text) (first :: rest)

/-- There is at least one segment. -/
theorem Splits.exists_cons {text : List Char} {segments : List (List Char)}
    (hsplits : Splits text segments) : ∃ first rest, segments = first :: rest := by
  cases hsplits with
  | last => exact ⟨text, [], rfl⟩
  | cut first _ rest => exact ⟨first, rest, rfl⟩

/-- A text is split in one way. -/
theorem Splits.unique {text : List Char} {segments others : List (List Char)}
    (hsplits : Splits text segments) (hothers : Splits text others) : segments = others := by
  induction hsplits generalizing others with
  | last text hfree =>
      cases hothers with
      | last => rfl
      | cut first text rest => exact absurd ⟨first, text, rfl⟩ hfree
  | cut first text rest hleft _ ih =>
      generalize hwhole : first ++ marker.toList ++ text = whole at hothers hleft
      cases hothers with
      | last _ hfree => exact absurd ⟨first, text, hwhole⟩ hfree
      | cut first' text' rest' hleft' htext =>
          -- Neither of the two markers can stand further to the left.
          have hlength : first.length = first'.length :=
            Nat.le_antisymm (hleft first' text' rfl) (hleft' first text hwhole.symm)
          rw [List.append_assoc, List.append_assoc] at hwhole
          obtain ⟨rfl, hrest⟩ := List.append_inj hwhole hlength
          obtain rfl := List.append_cancel_left hrest
          rw [ih htext]

/-- A character before a text from which no marker begins goes to the first segment. -/
theorem Splits.cons {c : Char} {text first : List Char} {rest : List (List Char)}
    (hsplits : Splits text (first :: rest)) (hstart : ¬ marker.toList <+: c :: text) :
    Splits (c :: text) ((c :: first) :: rest) := by
  cases hsplits with
  | last _ hfree =>
      refine .last (c :: text) ?_
      rw [List.infix_cons_iff, not_or]
      exact ⟨hstart, hfree⟩
  | cut _ text _ hleft htext =>
      refine .cut (c :: first) text rest ?_ htext
      intro before after heq
      cases before with
      | nil => exact absurd ⟨after, heq.symm⟩ hstart
      | cons d before =>
          have htail := hleft before after (List.cons.inj heq).2
          exact Nat.succ_le_succ htail

/-- The pieces of a text are its segments. -/
theorem splits_pieces (text : List Char) : Splits text (pieces text) := by
  induction text using pieces.induct with
  | case1 => exact .last [] (by decide)
  | case2 rest ih => exact .cut [] rest (pieces rest) (fun _ _ _ => Nat.zero_le _) ih
  | case3 c rest _ hrest ih =>
      obtain ⟨first, others, hpieces⟩ := ih.exists_cons
      cases hrest.symm.trans hpieces
  | case4 c rest hstart first others hrest ih =>
      rw [hrest] at ih
      have hmarker : ¬ marker.toList <+: c :: rest := by
        intro hprefix
        obtain ⟨tail, heq⟩ := hprefix
        injection heq with hc htail
        exact hstart tail hc.symm htail.symm
      have hpieces : pieces (c :: rest) = (c :: first) :: others := by
        rw [pieces, hrest]
        exact hstart
      rw [hpieces]
      exact ih.cons hmarker

end Wildcard

namespace Pattern

open Engine (Documented Found Reads)

/-- The parts of some pieces, with any text between them. -/
def partsOfPieces : List (List Char) → List Engine.Part
  | [] => []
  | [piece] => [.literal (String.ofList piece)]
  | piece :: rest => .literal (String.ofList piece) :: .run :: partsOfPieces rest

/-- The parts of a source. -/
def parts (source : String) : List Engine.Part :=
  .start :: (partsOfPieces (Wildcard.pieces source.toList) ++ [.stop])

variable {engine : Engine} {fits : String → Prop} {source candidate : String} {pattern : Pattern}
  {first : List Char} {rest : List (List Char)}

/-! ## Reading a string as a pattern -/

/-- A string is read as a pattern if its expression is compiled. -/
theorem compile_eq_ok_iff :
    compile engine source = .ok pattern ↔
      ∃ accepts, engine.compile (expression engine source) = .ok accepts ∧
        pattern = { source, accepts } := by
  rw [compile]
  cases engine.compile (expression engine source) with
  | ok accepts => simp [eq_comm]
  | error reason => simp

/-- A string that cannot be read as a pattern is named by the error. -/
theorem compile_eq_error_iff {error : Error} :
    compile engine source = .error error ↔
      ∃ reason, engine.compile (expression engine source) = .error reason ∧
        error = .invalidPattern source reason := by
  rw [compile]
  cases engine.compile (expression engine source) with
  | ok accepts => simp
  | error reason => simp [eq_comm]

/-- A pattern keeps its source. -/
theorem source_of_compile (hcompile : compile engine source = .ok pattern) :
    pattern.source = source := by
  obtain ⟨accepts, _, rfl⟩ := compile_eq_ok_iff.mp hcompile
  rfl

/-! ## The expression -/

/-- Pieces are joined as their parts are written. -/
theorem intercalate_eq_write (pieces : List (List Char)) :
    String.intercalate ".*" (pieces.map fun piece => engine.escape (String.ofList piece)) =
      engine.write (partsOfPieces pieces) := by
  induction pieces using partsOfPieces.induct with
  | case1 => rfl
  | case2 piece => simp [partsOfPieces, Engine.write, Engine.Part.written]
  | case3 piece rest hrest ih =>
      obtain ⟨second, others, rfl⟩ := List.exists_cons_of_ne_nil hrest
      have hparts : partsOfPieces (piece :: second :: others) =
          .literal (String.ofList piece) :: .run :: partsOfPieces (second :: others) := rfl
      rw [List.map_cons] at ih
      rw [hparts, List.map_cons, List.map_cons, String.intercalate_cons_cons, ih]
      simp [Engine.write, Engine.Part.written, String.append_assoc]

/-- The expression of a source is written from its parts. -/
theorem expression_eq_write : expression engine source = engine.write (parts source) := by
  rw [expression, intercalate_eq_write]
  simp [parts, Engine.write, Engine.Part.written, String.append_assoc]

/-- An engine that works as documented reads a string as a pattern if the expression fits. -/
theorem exists_compile (hengine : engine.Documented fits)
    (hfits : fits (expression engine source)) :
    ∃ pattern, compile engine source = .ok pattern := by
  rw [expression_eq_write] at hfits
  obtain ⟨test, htest⟩ := hengine.compiles _ hfits
  rw [← expression_eq_write] at htest
  exact ⟨_, compile_eq_ok_iff.mpr ⟨test, htest, rfl⟩⟩

/-- A pattern matches a text if the parts of its source are found there. -/
theorem accepts_iff_found (hengine : engine.Documented fits)
    (hcompile : compile engine source = .ok pattern) :
    pattern.accepts candidate = true ↔ Found (parts source) candidate.toList := by
  obtain ⟨accepts, haccepts, rfl⟩ := compile_eq_ok_iff.mp hcompile
  rw [expression_eq_write] at haccepts
  exact hengine.finds _ accepts candidate haccepts

/-! ## Instances -/

/-- The parts of some pieces match the pieces in turn, with a text without a line break before each
but the first. -/
theorem reads_parts_iff {before text : List Char} :
    Reads (partsOfPieces (first :: rest) ++ [.stop]) before text ↔
      ∃ runs : List (List Char), runs.length = rest.length ∧ (∀ run ∈ runs, '\n' ∉ run) ∧
        text = first ++ (runs.zip rest).flatMap fun part => part.1 ++ part.2 := by
  induction rest generalizing first before text with
  | nil =>
      constructor
      · rintro ⟨_, rfl, rfl, _⟩
        exact ⟨[], rfl, by simp, by simp⟩
      · rintro ⟨runs, _, _, rfl⟩
        exact ⟨[], by simp, rfl, trivial⟩
  | cons second rest ih =>
      constructor
      · rintro ⟨_, rfl, run, tail, hrun, rfl, hsecond⟩
        obtain ⟨runs, hlength, hruns, rfl⟩ := ih.mp hsecond
        exact ⟨run :: runs, by simp [hlength], List.forall_mem_cons.mpr ⟨hrun, hruns⟩, by simp⟩
      · rintro ⟨runs, hlength, hruns, rfl⟩
        cases runs with
        | nil => cases hlength
        | cons run runs =>
            obtain ⟨hrun, hruns⟩ := List.forall_mem_cons.mp hruns
            refine ⟨_, by rw [String.toList_ofList], run,
              second ++ (runs.zip rest).flatMap fun part => part.1 ++ part.2, hrun, by simp, ?_⟩
            exact ih.mpr ⟨runs, Nat.succ.inj hlength, hruns, rfl⟩

/-- The parts of a source are found in the texts that consist of its pieces with runs between
them. -/
theorem found_parts_iff (hpieces : Wildcard.pieces source.toList = first :: rest)
    {text : List Char} :
    Found (parts source) text ↔
      ∃ runs : List (List Char), runs.length = rest.length ∧ (∀ run ∈ runs, '\n' ∉ run) ∧
        text = first ++ (runs.zip rest).flatMap fun part => part.1 ++ part.2 := by
  rw [parts, Engine.found_start_iff, hpieces, reads_parts_iff]

/-- With an engine that works as documented, every source whose expression fits is read as a
pattern. It has one list of segments, which are left when its markers are taken out from the left.
The pattern matches a text exactly if the text consists of the segments in their order with some
text without a line break before each but the first. Every other character of the source stands for
itself. -/
theorem accepts_exactly_instances (hengine : engine.Documented fits) (source : String)
    (hfits : fits (expression engine source)) :
    ∃ pattern first rest, compile engine source = .ok pattern ∧ pattern.source = source ∧
      (∀ segments, Wildcard.Splits source.toList segments ↔ segments = first :: rest) ∧
      ∀ candidate : String, pattern.accepts candidate = true ↔
        ∃ runs : List (List Char), runs.length = rest.length ∧ (∀ run ∈ runs, '\n' ∉ run) ∧
          candidate.toList = first ++ (runs.zip rest).flatMap fun part => part.1 ++ part.2 := by
  have hsplits := Wildcard.splits_pieces source.toList
  obtain ⟨first, rest, hpieces⟩ := hsplits.exists_cons
  rw [hpieces] at hsplits
  obtain ⟨pattern, hcompile⟩ := exists_compile hengine hfits
  refine ⟨pattern, first, rest, hcompile, source_of_compile hcompile, ?_, ?_⟩
  · intro segments
    constructor
    · exact fun hother => hother.unique hsplits
    · intro heq
      rw [heq]
      exact hsplits
  · intro candidate
    rw [accepts_iff_found hengine hcompile, found_parts_iff hpieces]

/-- The small engine reads a source with a dot, a marker and a bracket that begins no marker. -/
theorem accepts_exactly_instances_dotted :
    Engine.WithinLimit (expression .standard "a.(.*)(b") ∧
    ∃ pattern first rest, compile .standard "a.(.*)(b" = .ok pattern ∧
      pattern.source = "a.(.*)(b" ∧
      (∀ segments, Wildcard.Splits "a.(.*)(b".toList segments ↔ segments = first :: rest) ∧
      ∀ candidate : String, pattern.accepts candidate = true ↔
        ∃ runs : List (List Char), runs.length = rest.length ∧ (∀ run ∈ runs, '\n' ∉ run) ∧
          candidate.toList = first ++ (runs.zip rest).flatMap fun part => part.1 ++ part.2 := by
  have hfits : Engine.WithinLimit (expression .standard "a.(.*)(b") := by
    rw [expression_eq_write, Engine.within_limit_write_iff]
    decide
  exact ⟨hfits, accepts_exactly_instances Engine.standard_documented _ hfits⟩

end Pattern

end StringReach
