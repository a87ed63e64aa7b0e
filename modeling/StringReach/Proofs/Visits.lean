import Mathlib.Logic.Function.Basic
import StringReach.Proofs.Resolution
import StringReach.Proofs.SingleAssignment

/-!
# The collector with a record

Collecting a statement is to read the locals that it mentions and to do the rest with their boxes.
`Frame.visits` collects statements in this way and records the boxes that each of them reads and
makes. `Method.collect_of_visits` says that the record makes no difference.
-/

namespace StringReach

/-! ## What a statement does to the locals -/

/-- What collecting a statement does to the locals. -/
structure Visit where
  /-- The arena when the statement is met. -/
  arena : Arena
  /-- The locals that are read, with the boxes that they are read from. -/
  reads : List (String × Handle)
  /-- The local that is defined, with the box that is made for the definition. -/
  made : Option (String × Handle) := none

/-- Track operands of a statement. -/
def Context.trackAll (context : Context) (site : Point) (operands : List (String × Handle)) :
    Context :=
  operands.foldl (fun context operand => context.track (site.operand operand.1) operand.2) context

namespace Frame

/-- The term that defines a local, over the boxes that the statement has read. A field that is
loaded is given a box if it has none. -/
def termOf (frame : Frame) : Statement → List Handle → Term × Frame
  | .const _ value, _ => (.terminal value, frame)
  | .assign _ _, [src] => (.eq src, frame)
  | .concat _ _ _, [left, right] => (.concat left right, frame)
  | .append _ _ _, [left, right] => (.concat left right, frame)
  | .phi _ _, items => (.union items, frame)
  | .unknown _, _ => (.top, frame)
  | .loadField _ field, _ =>
      let (box, fields, arena) := frame.context.fields.load frame.context.arena field
      (.eq box, { frame with context := { frame.context with fields, arena } })
  | .invoke callee _ _, _ => (.call callee, frame)
  | _, _ => (.parameter, frame)

/-- What a statement that defines no local does with the boxes that it has read. -/
def effect (frame : Frame) (site : Point) : Statement → List Handle → Except Violation Frame
  | .storeField field _, [value] => do
      let (_, fields, arena) ← frame.context.fields.store frame.context.arena field value
      pure { frame with context := { frame.context with fields, arena } }
  | .reflect kind _ _, boxes =>
      let context := frame.context.trackAll site ([Point.classSlot, Point.memberSlot].zip boxes)
      .ok { frame with context := context.addSite site kind }
  | _, _ => .ok frame

/-- Collect a statement in two parts: its locals are read, and the rest is done with their boxes. -/
def visit (frame : Frame) (site : Point) (statement : Statement) :
    Except Violation (Visit × Frame) := do
  let (boxes, reading) := frame.readAll statement.reads
  let visit : Visit := { arena := frame.context.arena, reads := statement.reads.zip boxes }
  match statement.dest? with
  | some dest =>
      let (term, frame) := reading.termOf statement boxes
      let (box, frame) := frame.alloc term
      let after ← frame.define dest box
      pure ({ visit with made := some (dest, box) }, after)
  | none =>
      let after ← reading.effect site statement boxes
      pure (visit, after)

/-- Collect statements, with a record of what each does to the locals. -/
def visits (frame : Frame) : List (Point × Statement) → Except Violation (List Visit × Frame)
  | [] => .ok ([], frame)
  | (site, statement) :: rest => do
      let (visit, frame) ← frame.visit site statement
      let (visits, frame) ← frame.visits rest
      pure (visit :: visits, frame)

/-- Tracking a point makes no difference to a read. -/
theorem read_track (frame : Frame) (point : Point) (box : Handle) (name : String) :
    Frame.read { frame with context := frame.context.track point box } name =
      ((frame.read name).1, { (frame.read name).2 with
        context := (frame.read name).2.context.track point box }) := by
  have hfind : Frame.find? { frame with context := frame.context.track point box } name =
      frame.find? name := rfl
  unfold read
  rw [hfind]
  cases frame.find? name <;> rfl

/-- A result is not changed by a record that is made beside it. -/
theorem map_snd_bind {ε α β : Type} (result : Except ε β) (note : α) :
    (result >>= fun value => pure (note, value)).map (·.2) = result := by
  cases result <;> rfl

/-- The two parts together are what the collector does. -/
theorem map_visit (frame : Frame) (site : Point) (statement : Statement) :
    (frame.visit site statement).map (·.2) = frame.step site statement := by
  cases statement with
  | const | assign | concat | append | phi | param | unknown | loadField | storeField =>
      exact map_snd_bind _ _
  | invoke callee dest args =>
      cases dest with
      | none => rfl
      | some dest => exact map_snd_bind _ _
  | reflect kind cls member =>
      cases member with
      | none => rfl
      | some member =>
          simp only [visit, Statement.dest?, Statement.reads, step, trackOperand, read_track]
          rfl

/-- Collect statements, each where it stands. -/
def run (frame : Frame) (script : List (Point × Statement)) : Except Violation Frame :=
  script.foldlM (fun frame entry => frame.step entry.1 entry.2) frame

/-- Statements that are visited one after the other are collected. -/
theorem run_of_visits {frame after : Frame} {script : List (Point × Statement)}
    {visits : List Visit} (hvisits : frame.visits script = .ok (visits, after)) :
    frame.run script = .ok after := by
  induction script generalizing frame visits with
  | nil =>
      cases hvisits
      rfl
  | cons entry rest ih =>
      rw [Frame.visits] at hvisits
      obtain ⟨⟨visit, middle⟩, hvisit, hvisits⟩ := bind_eq_ok.mp hvisits
      obtain ⟨⟨others, last⟩, hrest, hvisits⟩ := bind_eq_ok.mp hvisits
      cases hvisits
      have hstep := frame.map_visit entry.1 entry.2
      rw [hvisit] at hstep
      rw [run, List.foldlM_cons, ← hstep]
      exact ih hrest

/-- Parameters are defined as by statements. -/
theorem define_params_eq (frame : Frame) (site : Point) (params : List String) :
    frame.defineParams params = frame.run (params.map fun name => (site, .param name)) := by
  induction params generalizing frame with
  | nil => rfl
  | cons name rest ih =>
      rw [defineParams, run, List.map_cons, List.foldlM_cons]
      exact congrArg _ (funext fun frame => ih frame)

/-- The statements of a method are collected where they stand. -/
theorem steps_eq (frame : Frame) (method : String) (index : Nat) (body : List Statement) :
    frame.steps method index body = frame.run ((body.zipIdx index).map fun entry =>
      ({ method, statement := entry.2 }, entry.1)) := by
  induction body generalizing frame index with
  | nil => rfl
  | cons statement rest ih =>
      rw [steps, run, List.zipIdx_cons, List.map_cons, List.foldlM_cons]
      exact congrArg _ (funext fun frame => ih frame (index + 1))

end Frame

/-- The statements of a method and where they stand. A parameter is a definition before the body. -/
def Method.script (method : Method) : List (Point × Statement) :=
  method.params.map (fun name => ({ method := method.name, statement := 0 }, .param name)) ++
    method.body.zipIdx.map fun entry =>
      ({ method := method.name, statement := entry.2 }, entry.1)

/-- Collect a method, with a record of what each of its statements does to the locals. -/
def Method.visits (method : Method) (context : Context) : Except Violation (List Visit × Frame) :=
  Frame.visits { context } method.script

/-- The record makes no difference to what is collected. -/
theorem Method.collect_of_visits {method : Method} {context : Context} {visits : List Visit}
    {frame : Frame} (hvisits : method.visits context = .ok (visits, frame)) :
    method.collect context = .ok frame := by
  have hrun := Frame.run_of_visits hvisits
  rw [script, Frame.run, List.foldlM_append] at hrun
  rw [collect, ← hrun, Frame.define_params_eq _ { method := method.name, statement := 0 }]
  exact congrArg _ (funext fun frame => frame.steps_eq method.name 0 method.body)

/-! ## Definitions in a record -/

/-- The boxes that were made for the definitions of a local, in order. -/
def definitions (visits : List Visit) (name : String) : List Handle :=
  ((visits.filterMap (·.made)).filter (·.1 = name)).map (·.2)

/-- A box was made for a definition when a statement has made it. -/
theorem mem_definitions {visits : List Visit} {name : String} {box : Handle} :
    box ∈ definitions visits name ↔ ∃ visit ∈ visits, visit.made = some (name, box) := by
  simp [definitions]

/-- The definitions of one part after the other. -/
theorem definitions_append (first second : List Visit) (name : String) :
    definitions (first ++ second) name = definitions first name ++ definitions second name := by
  simp [definitions]

/-- A statement that defines nothing. -/
theorem definitions_concat_none {visits : List Visit} {visit : Visit} (hmade : visit.made = none) :
    definitions (visits ++ [visit]) = definitions visits := by
  ext1 name
  rw [definitions_append]
  simp [definitions, hmade]

/-- A statement that defines a local. -/
theorem definitions_concat_some {visits : List Visit} {visit : Visit} {dest : String} {box : Handle}
    (hmade : visit.made = some (dest, box)) :
    definitions (visits ++ [visit]) =
      Function.update (definitions visits) dest (definitions visits dest ++ [box]) := by
  ext1 name
  rw [definitions_append]
  by_cases hname : name = dest
  · subst hname
    rw [Function.update_self]
    simp [definitions, hmade]
  · rw [Function.update_of_ne hname]
    simp [definitions, hmade, Ne.symm hname]

end StringReach
