import Mathlib.Data.List.Basic
import StringReach.Reflection.Engine

/-!
# What expressions mean

An expression is written part by part, and a part has a meaning of its own: the beginning and the
end of a text are places in it, a run is any text without a line break, and a literal is the text
itself (`Engine.Reads`). Nothing else is asked of an engine: `Engine.Documented` says that it
compiles what is not too large for it, and that the tests it gives look for an expression anywhere
in a text. The small engine does both (`Engine.standard_documented`): its tables tell for every
place in a text whether the parts match from there on, so it never has to choose how much text a run
takes.
-/

namespace StringReach

namespace Engine

/-! ## Meaning -/

/-- How a part is written. -/
def Part.written (engine : Engine) : Part → String
  | .start => "^"
  | .stop => "$"
  | .run => ".*"
  | .literal text => engine.escape text

/-- The expression of some parts. -/
def write (engine : Engine) (parts : List Part) : String :=
  String.join (parts.map (Part.written engine))

/-- `Reads parts before after` says that parts can be matched in turn from the place between two
halves of a text on. -/
def Reads : List Part → List Char → List Char → Prop
  | [], _, _ => True
  | .start :: rest, before, after => before = [] ∧ Reads rest before after
  | .stop :: rest, before, after => after = [] ∧ Reads rest before after
  | .run :: rest, before, after =>
      ∃ run tail, '\n' ∉ run ∧ after = run ++ tail ∧ Reads rest (before ++ run) tail
  | .literal word :: rest, before, after =>
      ∃ tail, after = word.toList ++ tail ∧ Reads rest (before ++ word.toList) tail

/-- Parts are found in a text if they can be matched from some place on. -/
def Found (parts : List Part) (text : List Char) : Prop :=
  ∃ before after, text = before ++ after ∧ Reads parts before after

/-- An engine works as documented: it compiles an expression that fits, and the test tells whether
the expression is found in a text. -/
structure Documented (engine : Engine) (fits : String → Prop) : Prop where
  compiles (parts : List Part) :
    fits (engine.write parts) → ∃ test, engine.compile (engine.write parts) = .ok test
  finds (parts : List Part) (test : String → Bool) (text : String) :
    engine.compile (engine.write parts) = .ok test → (test text = true ↔ Found parts text.toList)

variable {parts : List Part} {P Q : List Char → List Char → Prop} {before after word : List Char}
  {entries : List Bool}

/-- A text that is read from its beginning is read from one place only. -/
theorem found_start_iff {text : List Char} :
    Found (.start :: parts) text ↔ Reads parts [] text := by
  constructor
  · rintro ⟨_, after, rfl, rfl, hreads⟩
    exact hreads
  · exact fun hreads => ⟨[], text, rfl, rfl, hreads⟩

/-! ## Reading what was written -/

/-- A part as the small engine reads it: a literal is read character by character. -/
def Part.spelled : Part → List Part
  | .literal text => text.toList.map ofChar
  | part => [part]

/-- An escaped character is read as that character. -/
theorem parts?_escape_char_append (c : Char) (rest : List Char) :
    parts? (escapeChar c ++ rest) = (parts? rest).map (ofChar c :: ·) := by
  rw [escapeChar]
  split
  next hspecial => simp only [List.cons_append, List.nil_append, parts?, hspecial, if_true]
  next hplain =>
      -- The characters that begin another part are special.
      have hne : c ≠ '^' ∧ c ≠ '$' ∧ c ≠ '.' ∧ c ≠ '\\' := by
        refine ⟨?_, ?_, ?_, ?_⟩ <;> rintro rfl <;> exact hplain (by decide)
      rw [List.cons_append, List.nil_append, parts?, if_neg hplain]
      · exact hne.1
      · exact hne.2.1
      · exact fun _ hc => absurd hc hne.2.2.1
      · exact fun _ _ hc => absurd hc hne.2.2.2

/-- An escaped text is read character by character. -/
theorem parts?_escaped_append (word rest : List Char) :
    parts? (word.flatMap escapeChar ++ rest) = (parts? rest).map (word.map ofChar ++ ·) := by
  induction word with
  | nil => simp
  | cons c word ih =>
      rw [List.flatMap_cons, List.append_assoc, parts?_escape_char_append, ih, Option.map_map]
      rfl

/-- A part that was written is read as it is spelled. -/
theorem parts?_written_append (part : Part) (rest : List Char) :
    parts? ((part.written standard).toList ++ rest) = (parts? rest).map (part.spelled ++ ·) := by
  cases part with
  | start | stop | run => rfl
  | literal text =>
      have hescaped : ((Part.literal text).written standard).toList =
          text.toList.flatMap escapeChar := String.toList_ofList
      rw [hescaped, parts?_escaped_append]
      rfl

/-- What was written is read as it is spelled. -/
theorem parts?_write (parts : List Part) :
    parts? (standard.write parts).toList = some (parts.flatMap Part.spelled) := by
  rw [write, String.toList_join]
  induction parts with
  | nil => rfl
  | cons part rest ih =>
      rw [List.map_cons, List.flatMap_cons, parts?_written_append, ih]
      rfl

/-- A text that is read character by character is read at once. -/
theorem reads_spelled_literal_iff :
    Reads (word.map ofChar ++ parts) before after ↔
      ∃ tail, after = word ++ tail ∧ Reads parts (before ++ word) tail := by
  induction word generalizing before after with
  | nil => simp
  | cons c word ih =>
      rw [List.map_cons, List.cons_append, ofChar, Reads, String.toList_singleton]
      constructor
      · rintro ⟨_, rfl, hrest⟩
        obtain ⟨tail, rfl, hreads⟩ := ih.mp hrest
        exact ⟨tail, rfl, by simpa using hreads⟩
      · rintro ⟨tail, rfl, hreads⟩
        exact ⟨word ++ tail, rfl, ih.mpr ⟨tail, rfl, by simpa using hreads⟩⟩

/-- Spelling parts does not change what they mean. -/
theorem reads_spelled_iff :
    Reads (parts.flatMap Part.spelled) before after ↔ Reads parts before after := by
  induction parts generalizing before after with
  | nil => exact Iff.rfl
  | cons part rest ih =>
      rw [List.flatMap_cons]
      cases part with
      | start | stop | run =>
          simp only [Part.spelled, List.cons_append, List.nil_append, Reads, ih]
      | literal text => simp only [Part.spelled, reads_spelled_literal_iff, Reads, ih]

/-! ## Tables -/

/-- A table tells for every place of a text, from a first one on, whether the halves of the text on
both sides have a property. -/
inductive Tells (P : List Char → List Char → Prop) : List Char → List Char → List Bool → Prop where
  | last (before entry) : (entry = true ↔ P before []) → Tells P before [] [entry]
  | cons (before c after entry entries) : (entry = true ↔ P before (c :: after)) →
      Tells P (before ++ [c]) after entries → Tells P before (c :: after) (entry :: entries)

/-- The first entry tells of the first place. -/
theorem Tells.head_iff (htells : Tells P before after entries) :
    entries.headD false = true ↔ P before after := by
  cases htells with
  | last _ _ hentry => exact hentry
  | cons _ _ _ _ _ hentry => exact hentry

/-- A table of one property is a table of an equal one. -/
theorem Tells.congr (htells : Tells P before after entries)
    (heq : ∀ before after, P before after ↔ Q before after) : Tells Q before after entries := by
  induction htells with
  | last before entry hentry => exact .last before entry (hentry.trans (heq before []))
  | cons before c after entry entries hentry _ ih =>
      exact .cons before c after entry entries (hentry.trans (heq before (c :: after))) ih

/-- Some entry is true if the property holds at some place. -/
theorem Tells.any_iff (htells : Tells P before after entries) :
    entries.any id = true ↔ ∃ mid tail, after = mid ++ tail ∧ P (before ++ mid) tail := by
  induction htells with
  | last before entry hentry =>
      rw [List.any_cons, List.any_nil, Bool.or_false, id, hentry]
      constructor
      · exact fun hhere => ⟨[], [], rfl, by simpa using hhere⟩
      · rintro ⟨mid, tail, hsplit, hhere⟩
        obtain ⟨rfl, rfl⟩ := List.append_eq_nil_iff.mp hsplit.symm
        simpa using hhere
  | cons before c after entry entries hentry _ ih =>
      rw [List.any_cons, Bool.or_eq_true, id, hentry, ih]
      constructor
      · rintro (hhere | ⟨mid, tail, rfl, hthere⟩)
        · exact ⟨[], c :: after, rfl, by simpa using hhere⟩
        · exact ⟨c :: mid, tail, rfl, by simpa using hthere⟩
      · rintro ⟨mid, tail, hsplit, hthere⟩
        cases mid with
        | nil =>
            obtain rfl : c :: after = tail := hsplit
            exact .inl (by simpa using hthere)
        | cons d mid =>
            obtain ⟨rfl, rfl⟩ := List.cons.inj hsplit
            exact .inr ⟨mid, tail, rfl, by simpa using hthere⟩

/-- No parts are matched at every place. -/
theorem tells_nil (before after : List Char) :
    Tells (Reads []) before after (true :: after.map fun _ => true) := by
  induction after generalizing before with
  | nil => exact .last before true (by simp [Reads])
  | cons c after ih => exact .cons before c after true _ (by simp [Reads]) (ih (before ++ [c]))

/-- The table of a character tells where it stands before what is told of. -/
theorem char_table_tells (c : Char) (htells : Tells P before after entries) :
    Tells (fun before after => ∃ tail, after = c :: tail ∧ P (before ++ [c]) tail) before after
      (charTable c after entries) := by
  induction htells with
  | last before entry hentry => exact .last before false (by simp)
  | cons before d after entry entries _ hrest ih =>
      refine .cons before d after _ _ ?_ ih
      rw [Bool.and_eq_true, beq_iff_eq, hrest.head_iff]
      constructor
      · rintro ⟨rfl, hhere⟩
        exact ⟨after, rfl, hhere⟩
      · rintro ⟨tail, hsplit, hhere⟩
        obtain ⟨rfl, rfl⟩ := List.cons.inj hsplit
        exact ⟨rfl, hhere⟩

/-- The table of a text tells where it stands before what is told of. -/
theorem word_table_tells (word : List Char) (htells : Tells P before after entries) :
    Tells (fun before after => ∃ tail, after = word ++ tail ∧ P (before ++ word) tail) before after
      (word.foldr (charTable · after ·) entries) := by
  induction word with
  | nil => exact htells.congr fun _ _ => by simp
  | cons c word ih =>
      refine (char_table_tells c ih).congr fun before after => ?_
      constructor
      · rintro ⟨_, rfl, tail, rfl, hhere⟩
        exact ⟨tail, rfl, by simpa using hhere⟩
      · rintro ⟨tail, rfl, hhere⟩
        exact ⟨word ++ tail, rfl, tail, rfl, by simpa using hhere⟩

/-- The table of a run tells from where what is told of can be reached within a line. -/
theorem run_table_tells (htells : Tells P before after entries) :
    Tells (fun before after =>
        ∃ run tail, '\n' ∉ run ∧ after = run ++ tail ∧ P (before ++ run) tail)
      before after (runTable after entries) := by
  induction htells with
  | last before entry hentry =>
      refine .last before entry (hentry.trans ?_)
      constructor
      · exact fun hhere => ⟨[], [], by simp, rfl, by simpa using hhere⟩
      · rintro ⟨run, tail, _, hsplit, hhere⟩
        obtain ⟨rfl, rfl⟩ := List.append_eq_nil_iff.mp hsplit.symm
        simpa using hhere
  | cons before d after entry entries hentry _ ih =>
      refine .cons before d after _ _ ?_ ih
      rw [Bool.or_eq_true, Bool.and_eq_true, bne_iff_ne, hentry, ih.head_iff]
      -- The run ends here, or takes the next character and goes on.
      constructor
      · rintro (hhere | ⟨hd, run, tail, hrun, rfl, hthere⟩)
        · exact ⟨[], d :: after, by simp, rfl, by simpa using hhere⟩
        · exact ⟨d :: run, tail, by simp [hrun, Ne.symm hd], rfl, by simpa using hthere⟩
      · rintro ⟨run, tail, hrun, hsplit, hthere⟩
        cases run with
        | nil =>
            obtain rfl : d :: after = tail := hsplit
            exact .inl (by simpa using hthere)
        | cons e run =>
            obtain ⟨rfl, rfl⟩ := List.cons.inj hsplit
            rw [List.mem_cons, not_or] at hrun
            exact .inr ⟨Ne.symm hrun.1, run, tail, hrun.2, rfl, by simpa using hthere⟩

/-- The table of the end tells of the last place only. -/
theorem stop_table_tells (htells : Tells P before after entries) :
    Tells (fun before after => after = [] ∧ P before after) before after
      (stopTable after entries) := by
  induction htells with
  | last before entry hentry => exact .last before entry (by simpa using hentry)
  | cons before d after entry entries _ _ ih => exact .cons before d after false _ (by simp) ih

/-- After the first place the table of the beginning has no true entry. -/
theorem tells_map_false (htells : Tells P before after entries) (hbefore : before ≠ []) :
    Tells (fun before after => before = [] ∧ P before after) before after
      (entries.map fun _ => false) := by
  induction htells with
  | last before entry _ => exact .last before false (by simp [hbefore])
  | cons before d after entry entries _ _ ih =>
      exact .cons before d after false _ (by simp [hbefore]) (ih (by simp))

/-- The table of the beginning tells of the first place only. -/
theorem start_table_tells (htells : Tells P [] after entries) :
    Tells (fun before after => before = [] ∧ P before after) [] after (startTable entries) := by
  cases htells with
  | last _ entry hentry => exact .last [] entry (by simpa using hentry)
  | cons _ d after entry entries hentry hrest =>
      exact .cons [] d after entry _ (by simpa using hentry) (tells_map_false hrest (by simp))

/-- The table of some parts tells from where on they match. -/
theorem table_tells (parts : List Part) (text : List Char) :
    Tells (Reads parts) [] text (table text parts) := by
  induction parts with
  | nil => exact tells_nil [] text
  | cons part rest ih =>
      cases part with
      | start => exact start_table_tells ih
      | stop => exact stop_table_tells ih
      | run => exact run_table_tells ih
      | literal word => exact word_table_tells word.toList ih

/-! ## The small engine -/

/-- An expression is within the limit of the small engine. -/
def WithinLimit (expression : String) : Prop :=
  ∀ parts, parts? expression.toList = some parts →
    (parts.map Part.size).foldr (· + ·) 0 ≤ sizeLimit

/-- What was written is within the limit if the parts as they are spelled are. -/
theorem within_limit_write_iff :
    WithinLimit (standard.write parts) ↔
      ((parts.flatMap Part.spelled).map Part.size).foldr (· + ·) 0 ≤ sizeLimit := by
  simp only [WithinLimit, parts?_write, Option.some.injEq, forall_eq']

/-- The small engine compiles what it can read and what is within the limit. -/
theorem standard_compile {expression : String} (hparts : parts? expression.toList = some parts) :
    standard.compile expression =
      if sizeLimit < (parts.map Part.size).foldr (· + ·) 0 then
        .error ("Compiled regex exceeds size limit of " ++ sizeLimit.repr ++ " bytes.")
      else
        .ok fun text => (table text.toList parts).any id := by
  simp only [standard, hparts]

/-- The small engine works as documented. -/
theorem standard_documented : standard.Documented WithinLimit where
  compiles parts hfits := by
    have hsize := within_limit_write_iff.mp hfits
    exact ⟨_, by rw [standard_compile (parts?_write parts), if_neg (Nat.not_lt.mpr hsize)]⟩
  finds parts test text hcompile := by
    rw [standard_compile (parts?_write parts)] at hcompile
    split at hcompile
    · cases hcompile
    · cases hcompile
      rw [(table_tells _ _).any_iff, Found]
      simp only [List.nil_append, reads_spelled_iff]

end Engine

end StringReach
