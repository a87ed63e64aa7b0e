import StringReach.Proofs.Convergence
import StringReach.Proofs.PointOrder
import StringReach.Proofs.Violations

/-!
# Dumps and reports

A report shows what the points were resolved to during the run, by either solver. The dump that is
made afterwards solves the same boxes again, always to the bounded depth. The two show the same
strings (`dump_agrees_with_report`), because a resolution has the bounded solution whatever solver
was used, and because nothing changes the context after the last points were resolved.
-/

namespace StringReach

/-! ## The fields of a context -/

/-- The field that a statement loads or stores. -/
def Statement.field? : Statement → Option String
  | .storeField field _ => some field
  | .loadField _ field => some field
  | _ => none

namespace Fields

/-- A field that is found is listed. -/
theorem mem_boxes_of_find? {fields : Fields} {name : String} {box : Handle}
    (hfind : fields.boxes[name]? = some box) : name ∈ fields.boxes :=
  Std.ExtTreeMap.mem_iff_isSome_getElem?.mpr (Option.isSome_of_eq_some hfind)

/-- Loading a field lists it. -/
theorem mem_load_boxes {fields fields' : Fields} {arena arena' : Arena} {name other : String}
    {box : Handle} (hload : fields.load arena name = (box, fields', arena')) :
    other ∈ fields'.boxes ↔ other = name ∨ other ∈ fields.boxes := by
  rw [load, find?] at hload
  split at hload
  · rename_i box' hfind
    cases hload
    exact (or_iff_right_of_imp fun hother => hother ▸ mem_boxes_of_find? hfind).symm
  · cases hload
    rw [Std.ExtTreeMap.mem_insert, Std.compare_eq_iff_eq, eq_comm]

/-- Storing to a field lists it. -/
theorem mem_store_boxes {fields fields' : Fields} {arena arena' : Arena} {name other : String}
    {value box : Handle} (hstore : fields.store arena name value = .ok (box, fields', arena')) :
    other ∈ fields'.boxes ↔ other = name ∨ other ∈ fields.boxes := by
  rw [store, find?] at hstore
  split at hstore
  · cases hstore
    rw [Std.ExtTreeMap.mem_insert, Std.compare_eq_iff_eq, eq_comm]
  · rename_i box' hfind
    obtain ⟨term, _, hstore⟩ := bind_eq_ok.mp hstore
    have hsame : fields' = fields := by
      split at hstore
      · obtain ⟨_, _, hstore⟩ := bind_eq_ok.mp hstore
        cases hstore
        rfl
      · obtain ⟨_, _, hstore⟩ := bind_eq_ok.mp hstore
        cases hstore
        rfl
    rw [hsame]
    exact (or_iff_right_of_imp fun hother => hother ▸ mem_boxes_of_find? hfind).symm

end Fields

namespace Frame

/-- Reading a local leaves the fields alone. -/
@[simp] theorem read_fields (frame : Frame) (name : String) :
    (frame.read name).2.context.fields = frame.context.fields := by
  unfold read
  split <;> rfl

/-- Reading several locals leaves the fields alone. -/
@[simp] theorem read_all_fields (frame : Frame) (names : List String) :
    (frame.readAll names).2.context.fields = frame.context.fields := by
  induction names generalizing frame with
  | nil => rfl
  | cons name rest ih => exact (ih _).trans (frame.read_fields name)

/-- Defining a local leaves the fields alone. -/
theorem define_fields (frame : Frame) {frame' : Frame} {name : String} {value : Handle}
    (hdefine : frame.define name value = .ok frame') :
    frame'.context.fields = frame.context.fields := by
  unfold define at hdefine
  split at hdefine
  · cases hdefine
    rfl
  · obtain ⟨term, _, hdefine⟩ := bind_eq_ok.mp hdefine
    split at hdefine
    · obtain ⟨arena, _, hdefine⟩ := bind_eq_ok.mp hdefine
      cases hdefine
      rfl
    · cases hdefine
      rfl

/-- Defining a local as a new term leaves the fields alone. -/
theorem define_term_fields (frame : Frame) {frame' : Frame} {name : String} {term : Term}
    (hdefine : frame.defineTerm name term = .ok frame') :
    frame'.context.fields = frame.context.fields :=
  (frame.alloc term).2.define_fields hdefine

/-- A statement lists the field that it mentions. -/
theorem mem_step_fields (frame : Frame) {frame' : Frame} {site : Point}
    {statement : Statement} {name : String} (hstep : frame.step site statement = .ok frame') :
    name ∈ frame'.context.fields.boxes ↔
      statement.field? = some name ∨ name ∈ frame.context.fields.boxes := by
  cases statement with
  | const | param | unknown => simp [frame.define_term_fields hstep, Statement.field?]
  | assign dest src =>
      simp [(frame.read src).2.define_term_fields hstep, Statement.field?]
  | concat dest left right =>
      simp [((frame.read left).2.read right).2.define_term_fields hstep, Statement.field?]
  | append target value dest =>
      simp [((frame.read target).2.read value).2.define_term_fields hstep, Statement.field?]
  | phi dest sources =>
      simp [(frame.readAll sources).2.define_term_fields hstep, Statement.field?]
  | invoke callee dest args =>
      cases dest with
      | none =>
          cases hstep
          simp [Statement.field?]
      | some dest => simp [frame.define_term_fields hstep, Statement.field?]
  | loadField dest field =>
      rw [step] at hstep
      rcases hload : frame.context.fields.load frame.context.arena field with ⟨box, fields, arena⟩
      rw [hload] at hstep
      rw [define_term_fields _ hstep, Fields.mem_load_boxes hload]
      simp [Statement.field?, eq_comm]
  | storeField field value =>
      change ((frame.read value).2.context.fields.store (frame.read value).2.context.arena field
        (frame.read value).1 >>= _) = _ at hstep
      obtain ⟨⟨box, fields, arena⟩, hstore, hstep⟩ := bind_eq_ok.mp hstep
      cases hstep
      rw [Fields.mem_store_boxes hstore, read_fields]
      simp [Statement.field?, eq_comm]
  | reflect kind cls member =>
      cases hstep
      cases member <;> simp [Statement.field?, trackOperand, Context.track, Context.addSite]

/-- The statements of a method list the fields that they mention. -/
theorem mem_steps_fields (frame : Frame) {frame' : Frame} {method : String} {index : Nat}
    {body : List Statement} {name : String} (hsteps : frame.steps method index body = .ok frame') :
    name ∈ frame'.context.fields.boxes ↔
      (∃ statement ∈ body, statement.field? = some name) ∨
        name ∈ frame.context.fields.boxes := by
  induction body generalizing frame index with
  | nil =>
      cases hsteps
      simp
  | cons statement rest ih =>
      obtain ⟨middle, hstep, hsteps⟩ := bind_eq_ok.mp hsteps
      rw [ih middle hsteps, frame.mem_step_fields hstep, List.exists_mem_cons_iff, or_assoc,
        or_left_comm]

/-- Parameters leave the fields alone. -/
theorem define_params_fields (frame : Frame) {frame' : Frame} {params : List String}
    (hparams : frame.defineParams params = .ok frame') :
    frame'.context.fields = frame.context.fields := by
  induction params generalizing frame with
  | nil =>
      cases hparams
      rfl
  | cons name rest ih =>
      obtain ⟨middle, hdefine, hparams⟩ := bind_eq_ok.mp hparams
      rw [ih middle hparams, frame.define_term_fields hdefine]

end Frame

/-- Collecting a method lists the fields that its statements mention. -/
theorem Method.mem_collect_fields {method : Method} {context : Context} {frame : Frame}
    {name : String} (hcollect : method.collect context = .ok frame) :
    name ∈ frame.context.fields.boxes ↔
      (∃ statement ∈ method.body, statement.field? = some name) ∨
        name ∈ context.fields.boxes := by
  obtain ⟨middle, hparams, hsteps⟩ := bind_eq_ok.mp hcollect
  rw [middle.mem_steps_fields hsteps, Frame.define_params_fields _ hparams]

namespace Context

/-- Collecting methods lists the fields that their statements mention. -/
theorem mem_collect_all_fields {context context' : Context} {methods : List Method} {name : String}
    (hcollect : context.collectAll methods = .ok context') :
    name ∈ context'.fields.boxes ↔
      (∃ method ∈ methods, ∃ statement ∈ method.body, statement.field? = some name) ∨
        name ∈ context.fields.boxes := by
  induction methods generalizing context with
  | nil =>
      cases hcollect
      simp
  | cons method rest ih =>
      obtain ⟨frame, hmethod, hcollect⟩ := bind_eq_ok.mp hcollect
      rw [ih hcollect, Method.mem_collect_fields hmethod, List.exists_mem_cons_iff, or_assoc,
        or_left_comm]

/-- A context has the fields that the statements of the collected methods mention. -/
theorem exists_field_iff {context : Context} {methods : List Method}
    (hcollect : Context.empty.collectAll methods = .ok context) (name : String) :
    (∃ box, context.fields.find? name = some box) ↔
      ∃ method ∈ methods, ∃ statement ∈ method.body, statement.field? = some name := by
  rw [← Option.isSome_iff_exists, Fields.find?, ← Std.ExtTreeMap.mem_iff_isSome_getElem?,
    mem_collect_all_fields hcollect]
  simp [Context.empty, Fields.empty]

/-- Fields are listed in the order of the bytes of their names. -/
theorem fields_ordered (context : Context) :
    context.fields.toList.Pairwise fun earlier later =>
      Text.bytes earlier.1 < Text.bytes later.1 :=
  Std.ExtTreeMap.ordered_keys_toList.imp fun hlt => Text.compare_eq_lt_iff.mp hlt

/-! ## The lines of a dump -/

/-- The two lines of a dump for a key. The first one shows a term, the second one strings in their
order, as the text of a solution does. -/
def dumpLines (key term : String) (strings : List String) : String :=
  "RESULT-lcb:[" ++ key ++ "]\t=======>\t" ++ term ++ "\n" ++
    "RESULT-set:[" ++ key ++ "]\t=======>\t" ++
    ("\x7b" ++ String.join (strings.map fun text => "\"" ++ text ++ "\"; ") ++ "\x7d") ++ "\n"

/-- The lines of a field show the term of its box and its bounded solution. -/
def ShowsField (context : Context) (settings : DumpSettings) (field : String × Handle)
    (lines : String) : Prop :=
  ∃ term solution, context.arena.render settings.showHandles field.2 = .ok term ∧
    context.arena.solveBounded settings.depth field.2 = .ok solution ∧
    lines = dumpLines ("field-" ++ field.1) term solution.strings.toList

/-- The lines of a resolved point show the term of its box and the strings that were resolved. -/
def ShowsPoint (context : Context) (settings : DumpSettings) (entry : ResolvedPoint)
    (lines : String) : Prop :=
  ∃ box term, context.tracked[entry.point]? = some box ∧
    context.arena.render settings.showHandles box = .ok term ∧
    lines = dumpLines ("point-" ++ entry.point.text) term entry.strings

variable {context : Context} {settings : DumpSettings}

/-- What an entry of a dump consists of. -/
theorem lines_of_dump_entry {key lines : String} {box : Handle}
    (hentry : context.dumpEntry settings key box = .ok lines) :
    ∃ term solution, context.arena.render settings.showHandles box = .ok term ∧
      context.arena.solveBounded settings.depth box = .ok solution ∧
      lines = dumpLines key term solution.strings.toList := by
  obtain ⟨term, hterm, hentry⟩ := bind_eq_ok.mp hentry
  obtain ⟨solution, hsolution, hentry⟩ := bind_eq_ok.mp hentry
  refine ⟨term, solution, hterm, hsolution, ?_⟩
  cases hentry
  rfl

/-- A dump has an entry for each field and then one for each tracked point. -/
theorem parts_of_dump {text : String} (hdump : context.dump settings = .ok text) :
    ∃ fieldParts pointParts, text = String.join (fieldParts ++ pointParts) ∧
      List.Forall₂ (context.ShowsField settings) context.fields.toList fieldParts ∧
      List.Forall₂ (fun tracked lines =>
        context.dumpEntry settings ("point-" ++ tracked.1.text) tracked.2 = .ok lines)
        context.tracked.toList pointParts := by
  rw [dump, dumpEntries, List.mapM_append] at hdump
  obtain ⟨parts, hparts, hdump⟩ := bind_eq_ok.mp hdump
  obtain ⟨fieldParts, hfields, hparts⟩ := bind_eq_ok.mp hparts
  obtain ⟨pointParts, hpoints, hparts⟩ := bind_eq_ok.mp hparts
  cases hparts
  cases hdump
  refine ⟨fieldParts, pointParts, rfl, ?_, ?_⟩
  · have hentries := List.forall₂_map_left_iff.mp (forall₂_of_map_ok hfields)
    exact hentries.imp fun _ _ hentry => lines_of_dump_entry hentry
  · exact List.forall₂_map_left_iff.mp (forall₂_of_map_ok hpoints)

end Context

/-- Two lists that are each related to a third one item by item are related through its items. -/
theorem forall₂_through {α β γ : Type} {R : α → β → Prop} {S : α → γ → Prop} {items : List α}
    {left : List β} {right : List γ} (hleft : List.Forall₂ R items left)
    (hright : List.Forall₂ S items right) :
    List.Forall₂ (fun a b => ∃ item ∈ items, R item a ∧ S item b) left right := by
  induction hleft generalizing right with
  | nil =>
      cases hright
      exact .nil
  | cons hfirst _ ih =>
      cases hright with
      | cons hfirst' hrest =>
          refine .cons ⟨_, by simp, hfirst, hfirst'⟩ ((ih hrest).imp ?_)
          rintro a b ⟨item, hmem, hboth⟩
          exact ⟨item, List.mem_cons_of_mem _ hmem, hboth⟩

/-! ## The dump after an analysis -/

/-- The parts of a dump agree with a report: there is one for each field that a collected method
loads or stores, sorted by name, and one for each point of the report, in the order of the report
and with the strings of the report. -/
structure DumpAgrees (analyzer : Analyzer) (engine : Engine) (program : Program) (report : Report)
    (context : Context) (fieldParts pointParts : List String) : Prop where
  listed : ∀ name, (∃ box, context.fields.find? name = some box) ↔
    ∃ method ∈ analyzer.collectedIn engine program report.lastIteration,
      ∃ statement ∈ method.body, statement.field? = some name
  ordered : context.fields.toList.Pairwise fun earlier later =>
    Text.bytes earlier.1 < Text.bytes later.1
  fields : List.Forall₂ (context.ShowsField analyzer.dumpSettings) context.fields.toList fieldParts
  points : List.Forall₂ (context.ShowsPoint analyzer.dumpSettings) report.points pointParts

/-- After an analysis that has given a report, the dump succeeds and agrees with the report. -/
theorem dump_agrees_with_report (analyzer : Analyzer) (engine : Engine) (clock : Nat → Id Nat)
    (program : Program) (report : Report)
    (hreport : (analyzer.analyze engine clock program).1.report = .ok report) :
    ∃ fieldParts pointParts,
      (analyzer.analyze engine clock program).2.dump =
        .ok (String.join (fieldParts ++ pointParts)) ∧
      DumpAgrees analyzer engine program report (analyzer.analyze engine clock program).2.context
        fieldParts pointParts := by
  obtain ⟨before, after, fixed, hlast, hleft⟩ := Analyzer.exists_last_iteration_left hreport
  have hcollected := hlast.iterates.collected
  obtain ⟨text, hdump⟩ := Context.exists_dump (Program.intact_of_collect hcollected)
    analyzer.dumpSettings
  obtain ⟨fieldParts, pointParts, rfl, hfields, hpoints⟩ := Context.parts_of_dump hdump
  obtain ⟨_, hentries⟩ := Context.resolved_at_of_resolve_tracked hlast.iterates.resolved
  rw [hleft]
  refine ⟨fieldParts, pointParts, hdump, ?_, after.context.fields_ordered, hfields, ?_⟩
  · rw [hlast.collected]
    exact Context.exists_field_iff hcollected
  · refine (forall₂_through hentries hpoints).imp ?_
    rintro entry lines ⟨⟨point, box⟩, hmem, ⟨rfl, hresolve⟩, hentry⟩
    obtain ⟨term, solution, hterm, hsolution, hlines⟩ := Context.lines_of_dump_entry hentry
    cases hsolution.symm.trans (Arena.solve_bounded_of_resolve hresolve)
    exact ⟨box, term, Std.ExtTreeMap.mem_toList_iff_getElem?_eq_some.mp hmem, hterm, hlines⟩

/-- A program that resolves one operand through a field and another one that is built in a loop. -/
def fieldLoopProgram : Program where
  entryPoints := ["Main.run"]
  methods := [
    { name := "Main.run"
      body := [.const "a" "Plug", .storeField "Main.base" "a", .loadField "f" "Main.base",
        .const "b" "in", .concat "c" "f" "b", .phi "y" ["b", "z"], .concat "z" "y" "b",
        .reflect .methodCall "c" (some "z")] }]

/-- An analyzer whose dumps show handles. -/
def handleAnalyzer : Analyzer where
  settings := { output := { showHandles := true } }

/-- The dump after the analysis of the program agrees with the report. -/
theorem dump_agrees_with_report_field_loop :
    ∃ report,
      (handleAnalyzer.analyze .unlimited (fun _ => (0 : Id Nat)) fieldLoopProgram).1.report =
        .ok report ∧
      ∃ fieldParts pointParts,
        (handleAnalyzer.analyze .unlimited (fun _ => (0 : Id Nat)) fieldLoopProgram).2.dump =
          .ok (String.join (fieldParts ++ pointParts)) ∧
        DumpAgrees handleAnalyzer .unlimited fieldLoopProgram report
          (handleAnalyzer.analyze .unlimited (fun _ => (0 : Id Nat)) fieldLoopProgram).2.context
          fieldParts pointParts := by
  obtain ⟨report, hreport, _⟩ :=
    exists_converged handleAnalyzer .unlimited (fun _ => (0 : Id Nat)) fieldLoopProgram rfl rfl
      (by decide) (handleAnalyzer.not_refuses_unlimited fieldLoopProgram)
  exact ⟨report, hreport,
    dump_agrees_with_report handleAnalyzer _ _ fieldLoopProgram report hreport⟩

end StringReach
