import StringReach.Analysis.Context
import StringReach.Program.Basic

/-!
# Collecting a method

Collecting a method turns its statements into terms. A local stands for the box of its latest
definition. A local that is read before it is defined gets an empty box, which the next definition
fills; this is how a value that is carried around a loop becomes a cycle.
-/

namespace StringReach

/-- The boxes of the locals of a method, and the facts gathered so far. -/
structure Frame where
  locals : Std.ExtTreeMap String Handle := ∅
  context : Context

namespace Frame

/-- The box of a local. -/
def find? (frame : Frame) (name : String) : Option Handle :=
  frame.locals[name]?

/-- Put a term into a new box. -/
def alloc (frame : Frame) (term : Term) : Handle × Frame :=
  let (box, context) := frame.context.alloc term
  (box, { frame with context })

/-- The box to read a local from, made empty when the local is not defined yet. -/
def read (frame : Frame) (name : String) : Handle × Frame :=
  match frame.find? name with
  | some box => (box, frame)
  | none =>
      let (box, frame) := frame.alloc .pending
      (box, { frame with locals := frame.locals.insert name box })

/-- The boxes to read several locals from, in order. -/
def readAll (frame : Frame) : List String → List Handle × Frame
  | [] => ([], frame)
  | name :: rest =>
      let (first, frame) := frame.read name
      let (others, frame) := frame.readAll rest
      (first :: others, frame)

/-- Define a local as the values of a box. An empty box of the local is filled and stays its box;
otherwise the local takes the new box. -/
def define (frame : Frame) (name : String) (value : Handle) : Except Violation Frame := do
  let rebound := { frame with locals := frame.locals.insert name value }
  match frame.find? name with
  | none => pure rebound
  | some box =>
      match ← frame.context.arena.get box with
      | .pending =>
          let arena ← frame.context.arena.refineEq box value
          pure { frame with context := { frame.context with arena } }
      | _ => pure rebound

/-- A local without a box takes the new box. -/
theorem define_new {frame : Frame} {name : String} (hfind : frame.find? name = none)
    (value : Handle) :
    frame.define name value = .ok { frame with locals := frame.locals.insert name value } := by
  simp only [define, hfind]
  rfl

/-- The empty box of a local is filled. -/
theorem define_pending {frame : Frame} {name : String} {box value : Handle} {term : Term}
    (hfind : frame.find? name = some box) (hbox : frame.context.arena.get? box = some .pending)
    (hvalue : frame.context.arena.get? value = some term) :
    frame.define name value = .ok { frame with
      context := { frame.context with arena := frame.context.arena.set box (.eq value) } } := by
  simp only [define, hfind]
  rw [Arena.get_eq_ok hbox]
  show (frame.context.arena.refineEq box value >>= _) = _
  rw [Arena.refine_eq_pending hvalue hbox]
  rfl

/-- A local whose box has content takes the new box. -/
theorem define_rebind {frame : Frame} {name : String} {box : Handle} {term : Term}
    (hfind : frame.find? name = some box) (hbox : frame.context.arena.get? box = some term)
    (hterm : term ≠ .pending) (value : Handle) :
    frame.define name value = .ok { frame with locals := frame.locals.insert name value } := by
  simp only [define, hfind]
  rw [Arena.get_eq_ok hbox]
  cases term with
  | pending => exact absurd rfl hterm
  | top | bottom | terminal _ | parameter | union _ | concat _ _ | eq _ | call _ => rfl

/-- Define a local as a new term. -/
def defineTerm (frame : Frame) (name : String) (term : Term) : Except Violation Frame :=
  let (box, frame) := frame.alloc term
  frame.define name box

/-- Track an operand of a statement. -/
def trackOperand (frame : Frame) (site : Point) (slot name : String) : Frame :=
  let (box, frame) := frame.read name
  { frame with context := frame.context.track (site.operand slot) box }

/-- Add the facts of one statement, which stands at the given point. -/
def step (frame : Frame) (site : Point) : Statement → Except Violation Frame
  | .const dest value => frame.defineTerm dest (.terminal value)
  | .assign dest src =>
      let (src, frame) := frame.read src
      frame.defineTerm dest (.eq src)
  | .concat dest left right =>
      let (left, frame) := frame.read left
      let (right, frame) := frame.read right
      frame.defineTerm dest (.concat left right)
  | .append target value dest =>
      let (left, frame) := frame.read target
      let (right, frame) := frame.read value
      frame.defineTerm (dest.getD target) (.concat left right)
  | .phi dest sources =>
      let (items, frame) := frame.readAll sources
      frame.defineTerm dest (.union items)
  | .param dest => frame.defineTerm dest .parameter
  | .unknown dest => frame.defineTerm dest .top
  | .storeField field value => do
      let (value, frame) := frame.read value
      let (_, fields, arena) ← frame.context.fields.store frame.context.arena field value
      pure { frame with context := { frame.context with fields, arena } }
  | .loadField dest field =>
      let (box, fields, arena) := frame.context.fields.load frame.context.arena field
      let frame := { frame with context := { frame.context with fields, arena } }
      frame.defineTerm dest (.eq box)
  | .invoke callee dest _ =>
      match dest with
      | some dest => frame.defineTerm dest (.call callee)
      | none => .ok frame
  | .reflect kind cls member =>
      let frame := frame.trackOperand site Point.classSlot cls
      let frame := match member with
        | some member => frame.trackOperand site Point.memberSlot member
        | none => frame
      .ok { frame with context := frame.context.addSite site kind }

/-- Define the parameters of a method. -/
def defineParams (frame : Frame) : List String → Except Violation Frame
  | [] => .ok frame
  | name :: rest => do
      let frame ← frame.defineTerm name .parameter
      frame.defineParams rest

/-- Add the facts of the statements of a method from the one at `index` on. -/
def steps (frame : Frame) (method : String) (index : Nat) : List Statement → Except Violation Frame
  | [] => .ok frame
  | statement :: rest => do
      let frame ← frame.step { method, statement := index } statement
      frame.steps method (index + 1) rest

end Frame

/-- Add the facts of a method to a context, and return them with the boxes of its locals. -/
def Method.collect (method : Method) (context : Context) : Except Violation Frame := do
  let frame ← Frame.defineParams { context } method.params
  frame.steps method.name 0 method.body

/-- Add the facts of several methods to a context. -/
def Context.collectAll (context : Context) : List Method → Except Violation Context
  | [] => .ok context
  | method :: rest => do
      let frame ← method.collect context
      frame.context.collectAll rest

end StringReach
