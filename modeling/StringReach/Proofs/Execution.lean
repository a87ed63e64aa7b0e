import StringReach.Proofs.Convergence
import StringReach.Proofs.Derivation
import StringReach.Proofs.SingleAssignment

/-!
# Executions and the reported strings

A trace executes statements of some methods in any order and any number of times. When each of the
methods defines each local once, every value that a local takes along a trace is derived by its box,
and every value that is stored to a field by the box of the field (`Sound`). So the strings that an
analysis reports for an operand of a reflective call cover every value that the operand can take
(`reported_strings_cover`).
-/

namespace StringReach

/-! ## Traces -/

/-- The values of the locals that are set, and the values stored to fields so far. -/
structure Memory where
  locals : Method → String → Option String
  stored : List (String × String)

namespace Memory

/-- Nothing is set. -/
def empty : Memory where
  locals _ _ := none
  stored := []

/-- Set a local of a method. -/
def set (memory : Memory) (method : Method) (name value : String) : Memory where
  locals other local' :=
    if other = method ∧ local' = name then some value else memory.locals other local'
  stored := memory.stored

/-- Store a value to a field. -/
def store (memory : Memory) (field value : String) : Memory where
  locals := memory.locals
  stored := (field, value) :: memory.stored

end Memory

/-- A statement of a method executes. It does so only when its operands are set; a value that comes
from outside may be any string, and an unknown value is never there. -/
inductive Executes (method : Method) (memory : Memory) : Statement → Memory → Prop where
  | const (dest value) : Executes method memory (.const dest value) (memory.set method dest value)
  | assign (dest src value) : memory.locals method src = some value →
      Executes method memory (.assign dest src) (memory.set method dest value)
  | concat (dest left right a b) : memory.locals method left = some a →
      memory.locals method right = some b →
      Executes method memory (.concat dest left right) (memory.set method dest (a ++ b))
  | append (target value dest a b) : memory.locals method target = some a →
      memory.locals method value = some b →
      Executes method memory (.append target value dest)
        (memory.set method (dest.getD target) (a ++ b))
  | phi (dest sources source value) : source ∈ sources →
      memory.locals method source = some value →
      Executes method memory (.phi dest sources) (memory.set method dest value)
  | param (dest value) : Executes method memory (.param dest) (memory.set method dest value)
  | storeField (field local' value) : memory.locals method local' = some value →
      Executes method memory (.storeField field local') (memory.store field value)
  | loadField (dest field value) : (field, value) ∈ memory.stored →
      Executes method memory (.loadField dest field) (memory.set method dest value)
  | invoke (callee dest args value) : (∀ arg ∈ args, (memory.locals method arg).isSome) →
      Executes method memory (.invoke callee (some dest) args) (memory.set method dest value)
  | invokeNone (callee args) : (∀ arg ∈ args, (memory.locals method arg).isSome) →
      Executes method memory (.invoke callee none args) memory
  | reflect (kind cls member) : (memory.locals method cls).isSome →
      (∀ name ∈ member, (memory.locals method name).isSome) →
      Executes method memory (.reflect kind cls member) memory

/-- The memories that executing statements of some methods can lead to. -/
inductive Trace (methods : List Method) : Memory → Prop where
  | empty : Trace methods .empty
  | parameter (memory method name value) : Trace methods memory → method ∈ methods →
      name ∈ method.params → Trace methods (memory.set method name value)
  | execute (memory memory' method statement) : Trace methods memory → method ∈ methods →
      statement ∈ method.body → Executes method memory statement memory' → Trace methods memory'

/-! ## What a layout derives -/

section Layout

variable {plan : Method → Outline} {labels : List (Label Method)} {arena : Arena} {fields : Fields}
  {method : Method} {value : String}

/-- Every box with a label derives a value. -/
def DerivesAt (labels : List (Label Method)) (arena : Arena) (label : Label Method)
    (value : String) : Prop :=
  ∀ ⦃h : Handle⦄, labels[h]? = some label → arena.Derives h value

/-- A box of a method derives what its content derives. -/
theorem derives_at_own (hlayout : Layout plan labels arena fields) {index : Nat} {content : Content}
    (hcontent : (plan method).boxes[index]? = some content)
    (hderives : ∀ {h : Handle} {term : Term}, arena.get? h = some term →
      Shows labels method content term → arena.Derives h value) :
    DerivesAt labels arena (.own method index) value := by
  intro h hlabel
  cases hlayout.placed hlabel with
  | own _ _ found term hfound hget hshows =>
      cases hcontent.symm.trans hfound
      exact hderives hget hshows

/-- A local derives what its content derives. -/
theorem derives_at_holds (hlayout : Layout plan labels arena fields) {index : Nat}
    {content : Content} (hholds : (plan method).Holds index content)
    (hderives : ∀ {h : Handle} {term : Term}, arena.get? h = some term →
      Shows labels method content term → arena.Derives h value) :
    DerivesAt labels arena (.own method index) value := by
  rcases hholds with hcontent | ⟨inner, houter, hinner⟩
  · exact derives_at_own hlayout hcontent hderives
  · refine derives_at_own hlayout houter ?_
    intro h term hget hshows
    cases hshows with
    | leaf _ hleaf => cases hleaf
    | eq _ a ha => exact .eq h a value hget (derives_at_own hlayout hinner hderives ha)

/-- The box of a field derives what a value stored to the field derives. -/
theorem derives_at_field (hlayout : Layout plan labels arena fields) {name : String}
    {label : Label Method} (hstored : Stored plan name label)
    (hderives : DerivesAt labels arena label value) :
    DerivesAt labels arena (.field name) value := by
  intro h hlabel
  cases hlayout.placed hlabel with
  | unset _ _ hnone => exact absurd hstored (hnone label)
  | single _ box other hget hbox hone =>
      cases (hone label).mp hstored
      exact .eq h box value hget (hderives hbox)
  | several _ moved first rest hget hmoved hfirst _ hcomplete =>
      obtain ⟨box, hmem, hbox⟩ := hcomplete label hstored
      rcases List.mem_cons.mp hmem with rfl | hmem
      · exact .union h _ moved value hget (by simp) (.eq moved box value hfirst (hderives hbox))
      · exact .union h _ box value hget (List.mem_cons_of_mem _ hmem) (hderives hbox)

end Layout

/-! ## Values along a trace -/

/-- The values of a memory are derived by the boxes of the locals and fields that hold them. -/
structure Sound (methods : List Method) (labels : List (Label Method)) (arena : Arena)
    (memory : Memory) : Prop where
  locals : ∀ {method : Method} {name value : String}, method ∈ methods →
    memory.locals method name = some value →
    ∃ index : Nat, method.outline.locals[name]? = some index ∧
      DerivesAt labels arena (.own method index) value
  stored : ∀ {field value : String}, (field, value) ∈ memory.stored →
    DerivesAt labels arena (.field field) value

namespace Sound

variable {methods : List Method} {labels : List (Label Method)} {context : Context}
  {memory memory' : Memory} {method : Method}

/-- Before anything is executed there is no value. -/
theorem empty (arena : Arena) : Sound methods labels arena .empty where
  locals _ hvalue := by cases hvalue
  stored hmem := by cases hmem

/-- The box of a local that has a known box derives the value of the local. -/
theorem derives_at (hsound : Sound methods labels context.arena memory) (hmethod : method ∈ methods)
    {name value : String} {index : Nat} (hlocal : method.outline.locals[name]? = some index)
    (hvalue : memory.locals method name = some value) :
    DerivesAt labels context.arena (.own method index) value := by
  obtain ⟨other, hother, hderives⟩ := hsound.locals hmethod hvalue
  cases hlocal.symm.trans hother
  exact hderives

/-- A local may be set to a value that its content derives. -/
theorem set (hsound : Sound methods labels context.arena memory)
    (hcollected : Collected methods labels context) (hmethod : method ∈ methods)
    {name value : String} {content : Content} (hdefines : method.outline.Defines name content)
    (hderives : ∀ {h : Handle} {term : Term}, context.arena.get? h = some term →
      Shows labels method content term → context.arena.Derives h value) :
    Sound methods labels context.arena (memory.set method name value) where
  locals {other local' found} hother hvalue := by
    change (if other = method ∧ local' = name then _ else _) = _ at hvalue
    split at hvalue
    · rename_i heq
      obtain ⟨rfl, rfl⟩ := heq
      cases hvalue
      obtain ⟨index, hlocal, hholds⟩ := hdefines
      refine ⟨index, hlocal, derives_at_holds hcollected.layout ?_ hderives⟩
      rwa [planOf, if_pos hmethod]
    · exact hsound.locals hother hvalue
  stored := hsound.stored

/-- A local that holds two others put together may be set to their values put together. -/
theorem set_concat (hsound : Sound methods labels context.arena memory)
    (hcollected : Collected methods labels context) (hmethod : method ∈ methods)
    {name left right first second : String} {a b : Nat}
    (hdefines : method.outline.Defines name (.term (.concat a b)))
    (ha : method.outline.locals[left]? = some a) (hb : method.outline.locals[right]? = some b)
    (hleft : memory.locals method left = some first)
    (hright : memory.locals method right = some second) :
    Sound methods labels context.arena (memory.set method name (first ++ second)) := by
  refine hsound.set hcollected hmethod hdefines ?_
  intro h term hget hshows
  cases hshows with
  | leaf _ hleaf => cases hleaf
  | concat _ _ x y hx hy =>
      exact .concat h x y first second hget (hsound.derives_at hmethod ha hleft hx)
        (hsound.derives_at hmethod hb hright hy)

/-- Executing a statement of a method that defines each local once gives derived values only. -/
theorem execute (hsound : Sound methods labels context.arena memory)
    (hcollected : Collected methods labels context) (hmethod : method ∈ methods)
    (honce : method.DefinesOnce) {statement : Statement} (hbody : statement ∈ method.body)
    (hexecutes : Executes method memory statement memory') :
    Sound methods labels context.arena memory' := by
  obtain ⟨index, hindex⟩ := List.mem_iff_getElem?.mp hbody
  have hrecords := Method.outline_records honce hindex
  cases hexecutes with
  | const dest value =>
      refine hsound.set hcollected hmethod hrecords ?_
      rintro h _ hget ⟨⟩
      exact .terminal h value hget
  | assign dest src value hsrc =>
      obtain ⟨a, ha, hdefines⟩ := hrecords
      refine hsound.set hcollected hmethod hdefines ?_
      intro h term hget hshows
      cases hshows with
      | leaf _ hleaf => cases hleaf
      | eq _ inner hinner => exact .eq h inner value hget (hsound.derives_at hmethod ha hsrc hinner)
  | concat dest left right first second hleft hright =>
      obtain ⟨a, b, ha, hb, hdefines⟩ := hrecords
      exact hsound.set_concat hcollected hmethod hdefines ha hb hleft hright
  | append target value dest first second htarget hvalue =>
      obtain ⟨a, b, ha, hb, hdefines⟩ := hrecords
      exact hsound.set_concat hcollected hmethod hdefines ha hb htarget hvalue
  | phi dest sources source value hsource hvalue =>
      obtain ⟨items, hitems, hdefines⟩ := hrecords
      refine hsound.set hcollected hmethod hdefines ?_
      intro h term hget hshows
      cases hshows with
      | leaf _ hleaf => cases hleaf
      | union _ boxes hboxes =>
          obtain ⟨item, hitem, hlocal⟩ := exists_partner hitems hsource
          obtain ⟨box, hbox, hlabel⟩ := exists_partner hboxes hitem
          exact .union h boxes box value hget hbox (hsound.derives_at hmethod hlocal hvalue hlabel)
  | param dest value =>
      refine hsound.set hcollected hmethod hrecords ?_
      rintro h _ hget ⟨⟩
      exact .parameter h value hget
  | storeField field local' value hvalue =>
      obtain ⟨a, ha, hstore⟩ := hrecords
      refine ⟨hsound.locals, ?_⟩
      intro field' value' hmem
      rcases List.mem_cons.mp hmem with heq | hmem
      · cases heq
        have hstored : Stored (planOf methods) field (.own method a) :=
          ⟨method, a, rfl, by rwa [planOf, if_pos hmethod]⟩
        exact derives_at_field hcollected.layout hstored (hsound.derives_at hmethod ha hvalue)
      · exact hsound.stored hmem
  | loadField dest field value hmem =>
      refine hsound.set hcollected hmethod hrecords ?_
      intro h term hget hshows
      cases hshows with
      | load _ box hbox => exact .eq h box value hget (hsound.stored hmem hbox)
  | invoke callee dest args value =>
      refine hsound.set hcollected hmethod (hrecords dest rfl) ?_
      rintro h _ hget ⟨⟩
      exact .call h callee value hget
  | invokeNone => exact hsound
  | reflect => exact hsound

/-- All values along a trace are derived. -/
theorem of_trace (hcollected : Collected methods labels context)
    (honce : ∀ method ∈ methods, method.DefinesOnce) (htrace : Trace methods memory) :
    Sound methods labels context.arena memory := by
  induction htrace with
  | empty => exact .empty context.arena
  | parameter memory method name value _ hmethod hname ih =>
      refine ih.set hcollected hmethod (Method.outline_params (honce method hmethod) hname) ?_
      rintro h _ hget ⟨⟩
      exact .parameter h value hget
  | execute memory memory' method statement _ hmethod hbody hexecutes ih =>
      exact ih.execute hcollected hmethod (honce method hmethod) hbody hexecutes

end Sound

/-! ## Reported strings -/

/-- A string that is reported for a point stands for a text. -/
def Report.Covers (report : Report) (point : Point) (text : String) : Prop :=
  ∃ entry ∈ report.points, entry.point = point ∧
    ∃ pattern ∈ entry.strings, Wildcard.Matches pattern text

/-- What the box of a tracked point derives is covered by the strings of the point. -/
theorem covers_of_derives {context : Context} {settings : ResolverSettings} {iteration : Nat}
    {report : Report} (hresolve : context.resolveTracked settings iteration = .ok report.results)
    {point : Point} {box : Handle} (htracked : context.tracked[point]? = some box) {text : String}
    (hderives : context.arena.Derives box text) : report.Covers point text := by
  obtain ⟨_, hpoints⟩ := Context.resolved_at_of_resolve_tracked hresolve
  obtain ⟨entry, hentry, hpoint, hresolution⟩ :=
    exists_partner hpoints (Std.ExtTreeMap.mem_toList_iff_getElem?_eq_some.mpr htracked)
  obtain ⟨pattern, hpattern, hmatches⟩ :=
    (Arena.resolved_of_resolve hresolution).unfolds.covers hderives
  exact ⟨entry, hentry, hpoint, pattern, Std.ExtTreeSet.mem_toList.mpr hpattern, hmatches⟩

/-- When the methods that the last iteration of an analysis has collected define each local once,
every value that an operand of a reflective call can take along a trace of these methods is covered
by the strings that are reported for the operand. -/
theorem reported_strings_cover (analyzer : Analyzer) (engine : Engine) (clock : Nat → Id Nat)
    (program : Program) (report : Report)
    (hreport : (analyzer.analyze engine clock program).1.report = .ok report)
    (honce : ∀ method ∈ analyzer.collectedIn engine program report.lastIteration,
      method.DefinesOnce)
    (memory : Memory)
    (htrace : Trace (analyzer.collectedIn engine program report.lastIteration) memory)
    (method : Method) (hmethod : method ∈ analyzer.collectedIn engine program report.lastIteration)
    (index : Nat) (kind : ReflectionKind) (cls : String) (member : Option String)
    (hbody : method.body[index]? = some (.reflect kind cls member)) :
    (∀ value, memory.locals method cls = some value →
      report.Covers (Point.operand { method := method.name, statement := index } Point.classSlot)
        value) ∧
    ∀ name ∈ member, ∀ value, memory.locals method name = some value →
      report.Covers (Point.operand { method := method.name, statement := index } Point.memberSlot)
        value := by
  obtain ⟨before, after, fixed, hlast⟩ := Analyzer.exists_last_iteration hreport
  obtain ⟨labels, hcollected⟩ := hlast.iterates.exists_collected
  rw [← hlast.collected] at hcollected
  have hsound := Sound.of_trace hcollected honce htrace
  -- The operand of a local is tracked at the box of the local, which derives the value.
  have hcovers : ∀ {point : Point} {name value : String} {box : Nat},
      method.outline.locals[name]? = some box → method.outline.tracked[point]? = some box →
      memory.locals method name = some value → report.Covers point value := by
    intro point name value box hlocal hpoint hvalue
    obtain ⟨h, htracked, hlabel⟩ := hcollected.tracks hmethod hpoint
    exact covers_of_derives hlast.iterates.resolved htracked
      (hsound.derives_at hmethod hlocal hvalue hlabel)
  obtain ⟨⟨box, hlocal, hpoint⟩, hmember⟩ :=
    Method.outline_records (honce method hmethod) hbody
  refine ⟨fun value hvalue => hcovers hlocal hpoint hvalue, ?_⟩
  intro name hname value hvalue
  obtain ⟨box', hlocal', hpoint'⟩ := hmember name hname
  exact hcovers hlocal' hpoint' hvalue

/-- A method that appends to a value in a loop and passes it on through a field. -/
def loopMethod : Method where
  name := "Main.run"
  body := [.const "a" "x", .phi "c" ["a", "d"], .const "b" "y", .concat "d" "c" "b",
    .storeField "f" "d", .loadField "e" "f", .reflect .classCall "e" none]

/-- The program that has only this method. -/
def loopProgram : Program where
  methods := [loopMethod]

/-- The memory after the loop was gone through twice. -/
def loopMemory : Memory :=
  (((((((Memory.empty.set loopMethod "a" "x").set loopMethod "c" "x").set loopMethod "b" "y").set
    loopMethod "d" "xy").set loopMethod "c" "xy").set loopMethod "d" "xyy").store "f" "xyy").set
      loopMethod "e" "xyy"

/-- The loop can be gone through twice. -/
theorem loop_trace {methods : List Method} (hmem : loopMethod ∈ methods) :
    Trace methods loopMemory := by
  have hphi : ∀ {memory : Memory} (source value : String), source = "a" ∨ source = "d" →
      memory.locals loopMethod source = some value → Trace methods memory →
      Trace methods (memory.set loopMethod "c" value) := by
    intro memory source value hsource hvalue htrace
    refine .execute _ _ loopMethod (.phi "c" ["a", "d"]) htrace hmem (by decide) ?_
    exact .phi _ _ source value (by simpa using hsource) hvalue
  have hconcat : ∀ {memory : Memory} (value joined : String), value ++ "y" = joined →
      memory.locals loopMethod "c" = some value → memory.locals loopMethod "b" = some "y" →
      Trace methods memory → Trace methods (memory.set loopMethod "d" joined) := by
    rintro memory value _ rfl hc hb htrace
    refine .execute _ _ loopMethod (.concat "d" "c" "b") htrace hmem (by decide) ?_
    exact .concat _ _ _ value "y" hc hb
  have ha : Trace methods (Memory.empty.set loopMethod "a" "x") :=
    .execute _ _ loopMethod (.const "a" "x") .empty hmem (by decide) (.const "a" "x")
  have hc := hphi "a" "x" (.inl rfl) (by simp [Memory.set]) ha
  have hb := Trace.execute _ _ loopMethod (.const "b" "y") hc hmem (by decide) (.const "b" "y")
  have hd := hconcat "x" "xy" rfl (by simp [Memory.set]) (by simp [Memory.set]) hb
  have hc' := hphi "d" "xy" (.inr rfl) (by simp [Memory.set]) hd
  have hd' := hconcat "xy" "xyy" rfl (by simp [Memory.set]) (by simp [Memory.set]) hc'
  have hf := Trace.execute _ _ loopMethod (.storeField "f" "d") hd' hmem (by decide)
    (.storeField "f" "d" "xyy" (by simp [Memory.set]))
  exact .execute _ _ loopMethod (.loadField "e" "f") hf hmem (by decide)
    (.loadField "e" "f" "xyy" (by simp [Memory.set, Memory.store]))

/-- What the loop has led to is covered by the strings that are reported. -/
theorem reported_strings_cover_loop :
    ∃ report : Report,
      (Analyzer.analyze { settings := {} } .unlimited (fun _ => (0 : Id Nat))
        loopProgram).1.report = .ok report ∧
      Trace (Analyzer.collectedIn { settings := {} } .unlimited loopProgram report.lastIteration)
        loopMemory ∧
      loopMemory.locals loopMethod "e" = some "xyy" ∧
      report.Covers (Point.operand { method := "Main.run", statement := 6 } Point.classSlot)
        "xyy" := by
  obtain ⟨report, hreport, _⟩ :=
    exists_converged { settings := {} } .unlimited (fun _ => (0 : Id Nat)) loopProgram rfl rfl
      (by decide) (Analyzer.not_refuses_unlimited _ loopProgram)
  obtain ⟨before, after, fixed, hlast⟩ := Analyzer.exists_last_iteration hreport
  have hmem : loopMethod ∈
      Analyzer.collectedIn { settings := {} } .unlimited loopProgram report.lastIteration :=
    hlast.root_mem (by decide) (by decide)
  have honce : ∀ method ∈
      Analyzer.collectedIn { settings := {} } .unlimited loopProgram report.lastIteration,
      method.DefinesOnce := by
    intro method hmethod
    rw [List.mem_singleton.mp (Analyzer.mem_of_mem_collected_in hmethod)]
    decide
  have hvalue : loopMemory.locals loopMethod "e" = some "xyy" := by simp [loopMemory, Memory.set]
  have hcovers := reported_strings_cover { settings := {} } _ _ loopProgram report hreport honce
    loopMemory (loop_trace hmem) loopMethod hmem 6 .classCall "e" none rfl
  exact ⟨report, hreport, loop_trace hmem, hvalue, hcovers.1 "xyy" hvalue⟩

end StringReach
