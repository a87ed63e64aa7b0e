import StringReach.Analysis.Collect

/-!
# The outline of a method

Collecting a method writes boxes into an arena that it shares with all other methods. Its outline
is what the method adds, said without the others: its own boxes, numbered from zero, and the values
that it stores to fields. A field that is loaded is mentioned by its name. The outline is computed
by the same walk over the statements as the collection, and `Layout` says how the outlines of
several methods lie in one arena.

`Method.outline_sites` says which reflective calls an outline has.
-/

namespace StringReach

/-- Looking up a key after an entry was added. -/
theorem get?_insert_eq {κ β : Type} [Ord κ] [Std.TransOrd κ] [Std.LawfulEqOrd κ] [DecidableEq κ]
    (map : Std.ExtTreeMap κ β) (key other : κ) (value : β) :
    (map.insert key value)[other]? = if key = other then some value else map[other]? := by
  rw [Std.ExtTreeMap.getElem?_insert]
  simp only [Std.LawfulEqCmp.compare_eq_iff_eq]

/-- What a box of a method holds: a term over the boxes of the method, or the value of a field. -/
inductive Content where
  | term (term : Term)
  | load (field : String)
deriving DecidableEq

/-- The part of the facts of a method that is its own. -/
structure Outline where
  boxes : List Content := []
  /-- The box of each local. -/
  locals : Std.ExtTreeMap String Nat := ∅
  /-- The fields that are stored to, each with the box of the value. -/
  stores : List (String × Nat) := []
  /-- The box of each operand to resolve. -/
  tracked : Std.ExtTreeMap Point Nat := ∅
  /-- The kind of each reflective call. -/
  sites : Std.ExtTreeMap Point ReflectionKind := ∅

namespace Outline

/-- Put a content into a new box. -/
def alloc (outline : Outline) (content : Content) : Nat × Outline :=
  (outline.boxes.length, { outline with boxes := outline.boxes ++ [content] })

/-- The box to read a local from, made empty when the local is not defined yet. -/
def read (outline : Outline) (name : String) : Nat × Outline :=
  match outline.locals[name]? with
  | some box => (box, outline)
  | none =>
      let (box, outline) := outline.alloc (.term .pending)
      (box, { outline with locals := outline.locals.insert name box })

/-- The boxes to read several locals from, in order. -/
def readAll (outline : Outline) : List String → List Nat × Outline
  | [] => ([], outline)
  | name :: rest =>
      let (first, outline) := outline.read name
      let (others, outline) := outline.readAll rest
      (first :: others, outline)

/-- Define a local as the values of a box. -/
def define (outline : Outline) (name : String) (value : Nat) : Outline :=
  let rebound := { outline with locals := outline.locals.insert name value }
  match outline.locals[name]? with
  | none => rebound
  | some box =>
      if outline.boxes[box]? = some (.term .pending) then
        { outline with boxes := outline.boxes.set box (.term (.eq value)) }
      else
        rebound

/-- Define a local as a new content. -/
def defineContent (outline : Outline) (name : String) (content : Content) : Outline :=
  let (box, outline) := outline.alloc content
  outline.define name box

/-- Record that a field may hold the values of a box. -/
def store (outline : Outline) (field : String) (value : Nat) : Outline :=
  { outline with stores := outline.stores ++ [(field, value)] }

/-- Track an operand of a statement. -/
def trackOperand (outline : Outline) (site : Point) (slot name : String) : Outline :=
  let (box, outline) := outline.read name
  { outline with tracked := outline.tracked.insert (site.operand slot) box }

/-- Add one statement, which stands at the given point. -/
def step (outline : Outline) (site : Point) : Statement → Outline
  | .const dest value => outline.defineContent dest (.term (.terminal value))
  | .assign dest src =>
      let (src, outline) := outline.read src
      outline.defineContent dest (.term (.eq src))
  | .concat dest left right =>
      let (left, outline) := outline.read left
      let (right, outline) := outline.read right
      outline.defineContent dest (.term (.concat left right))
  | .append target value dest =>
      let (left, outline) := outline.read target
      let (right, outline) := outline.read value
      outline.defineContent (dest.getD target) (.term (.concat left right))
  | .phi dest sources =>
      let (items, outline) := outline.readAll sources
      outline.defineContent dest (.term (.union items))
  | .param dest => outline.defineContent dest (.term .parameter)
  | .unknown dest => outline.defineContent dest (.term .top)
  | .storeField field value =>
      let (value, outline) := outline.read value
      outline.store field value
  | .loadField dest field => outline.defineContent dest (.load field)
  | .invoke callee dest _ =>
      match dest with
      | some dest => outline.defineContent dest (.term (.call callee))
      | none => outline
  | .reflect kind cls member =>
      let outline := outline.trackOperand site Point.classSlot cls
      let outline := match member with
        | some member => outline.trackOperand site Point.memberSlot member
        | none => outline
      { outline with sites := outline.sites.insert site kind }

/-- Define the parameters of a method. -/
def defineParams (outline : Outline) : List String → Outline
  | [] => outline
  | name :: rest => (outline.defineContent name (.term .parameter)).defineParams rest

/-- Add the statements of a method from the one at `index` on. -/
def steps (outline : Outline) (method : String) (index : Nat) : List Statement → Outline
  | [] => outline
  | statement :: rest =>
      (outline.step { method, statement := index } statement).steps method (index + 1) rest

/-! ## Points

Reading and defining locals leaves the points alone, and a statement has points of its own. -/

variable (outline : Outline)

/-- Reading a local tracks nothing. -/
@[simp] theorem read_tracked (name : String) :
    (outline.read name).2.tracked = outline.tracked := by
  unfold read
  split <;> rfl

/-- Reading a local records no reflective call. -/
@[simp] theorem read_sites (name : String) : (outline.read name).2.sites = outline.sites := by
  unfold read
  split <;> rfl

/-- Reading several locals tracks nothing. -/
@[simp] theorem read_all_tracked (names : List String) :
    (outline.readAll names).2.tracked = outline.tracked := by
  induction names generalizing outline with
  | nil => rfl
  | cons name rest ih => exact (ih _).trans (outline.read_tracked name)

/-- Reading several locals records no reflective call. -/
@[simp] theorem read_all_sites (names : List String) :
    (outline.readAll names).2.sites = outline.sites := by
  induction names generalizing outline with
  | nil => rfl
  | cons name rest ih => exact (ih _).trans (outline.read_sites name)

/-- Defining a local tracks nothing. -/
@[simp] theorem define_content_tracked (name : String) (content : Content) :
    (outline.defineContent name content).tracked = outline.tracked := by
  unfold defineContent alloc define
  dsimp only
  split
  · rfl
  · split <;> rfl

/-- Defining a local records no reflective call. -/
@[simp] theorem define_content_sites (name : String) (content : Content) :
    (outline.defineContent name content).sites = outline.sites := by
  unfold defineContent alloc define
  dsimp only
  split
  · rfl
  · split <;> rfl

/-- The parameters are not tracked. -/
@[simp] theorem define_params_tracked (params : List String) :
    (outline.defineParams params).tracked = outline.tracked := by
  induction params generalizing outline with
  | nil => rfl
  | cons name rest ih => exact (ih _).trans (outline.define_content_tracked name _)

/-- The parameters record no reflective call. -/
@[simp] theorem define_params_sites (params : List String) :
    (outline.defineParams params).sites = outline.sites := by
  induction params generalizing outline with
  | nil => rfl
  | cons name rest ih => exact (ih _).trans (outline.define_content_sites name _)

/-- Tracking an operand records no reflective call. -/
@[simp] theorem track_operand_sites (site : Point) (slot name : String) :
    (outline.trackOperand site slot name).sites = outline.sites :=
  outline.read_sites name

/-- A reflective call is recorded where it stands, and nothing else is. -/
theorem step_sites (site : Point) (statement : Statement) :
    (outline.step site statement).sites = match statement with
      | .reflect kind _ _ => outline.sites.insert site kind
      | _ => outline.sites := by
  cases statement with
  | invoke callee dest args => cases dest <;> simp [step]
  | reflect kind cls member => cases member <;> simp [step]
  | const | assign | concat | append | phi | param | unknown | storeField | loadField =>
      simp [step, store]

/-- Tracking an operand leaves the other points alone. -/
theorem track_operand_tracked_of_ne {site point : Point} {slot : String}
    (hne : point ≠ site.operand slot) (name : String) :
    (outline.trackOperand site slot name).tracked[point]? = outline.tracked[point]? := by
  rw [trackOperand, get?_insert_eq, if_neg (Ne.symm hne), read_tracked]

/-- A statement tracks operands of its own point only. -/
theorem step_tracked_of_ne {site point : Point} (hne : ∀ slot, point ≠ site.operand slot)
    (statement : Statement) :
    (outline.step site statement).tracked[point]? = outline.tracked[point]? := by
  cases statement with
  | invoke callee dest args => cases dest <;> simp [step]
  | reflect kind cls member =>
      cases member <;> simp [step, track_operand_tracked_of_ne _ (hne _)]
  | const | assign | concat | append | phi | param | unknown | storeField | loadField =>
      simp [step, store]

/-- The statements of a method one part after the other. -/
theorem steps_append (method : String) (index : Nat) (first second : List Statement) :
    outline.steps method index (first ++ second) =
      (outline.steps method index first).steps method (index + first.length) second := by
  induction first generalizing outline index with
  | nil => rfl
  | cons statement rest ih =>
      rw [List.cons_append, steps, ih, steps, List.length_cons, Nat.add_assoc, Nat.add_comm 1]

/-- Later statements leave the reflective calls before them alone. -/
theorem steps_sites_of_lt {point : Point} {index : Nat} (hlt : point.statement < index)
    (method : String) (body : List Statement) :
    (outline.steps method index body).sites[point]? = outline.sites[point]? := by
  induction body generalizing outline index with
  | nil => rfl
  | cons statement rest ih =>
      rw [steps, ih _ (Nat.lt_succ_of_lt hlt), step_sites]
      cases statement with
      | reflect kind cls member =>
          rw [get?_insert_eq, if_neg]
          rintro rfl
          exact Nat.lt_irrefl _ hlt
      | const | assign | concat | append | phi | param | unknown | storeField | loadField
      | invoke => rfl

/-- Later statements leave the operands before them alone. -/
theorem steps_tracked_of_lt {point : Point} {index : Nat} (hlt : point.statement < index)
    (method : String) (body : List Statement) :
    (outline.steps method index body).tracked[point]? = outline.tracked[point]? := by
  induction body generalizing outline index with
  | nil => rfl
  | cons statement rest ih =>
      rw [steps, ih _ (Nat.lt_succ_of_lt hlt), step_tracked_of_ne]
      rintro slot rfl
      exact Nat.lt_irrefl _ hlt

/-- A reflective call that is recorded was recorded before or stands in the statements. -/
theorem reflect_of_steps_sites {method : String} {index : Nat} {body : List Statement}
    {point : Point} {kind : ReflectionKind}
    (hsite : (outline.steps method index body).sites[point]? = some kind) :
    outline.sites[point]? = some kind ∨ ∃ (later : Nat) (cls : String) (member : Option String),
      point = { method, statement := index + later } ∧
        body[later]? = some (.reflect kind cls member) := by
  induction body generalizing outline index with
  | nil => exact .inl hsite
  | cons statement rest ih =>
      rw [steps] at hsite
      rcases ih _ hsite with hstep | ⟨later, cls, member, rfl, hbody⟩
      · rw [step_sites] at hstep
        cases statement with
        | reflect kind' cls member =>
            rw [get?_insert_eq] at hstep
            split at hstep
            · rename_i heq
              subst heq
              cases hstep
              exact .inr ⟨0, cls, member, rfl, rfl⟩
            · exact .inl hstep
        | const | assign | concat | append | phi | param | unknown | storeField | loadField
        | invoke => exact .inl hstep
      · refine .inr ⟨later + 1, cls, member, ?_, hbody⟩
        rw [Nat.add_assoc, Nat.add_comm 1]

/-- A point that is tracked was tracked before or belongs to the method. -/
theorem method_of_steps_tracked {method : String} {index : Nat} {body : List Statement}
    {point : Point} {box : Nat}
    (htracked : (outline.steps method index body).tracked[point]? = some box) :
    outline.tracked[point]? = some box ∨ point.method = method := by
  induction body generalizing outline index with
  | nil => exact .inl htracked
  | cons statement rest ih =>
      rw [steps] at htracked
      rcases ih _ htracked with hstep | hmethod
      · by_cases hpoint : ∃ slot, point = Point.operand { method, statement := index } slot
        · obtain ⟨slot, rfl⟩ := hpoint
          exact .inr rfl
        · rw [step_tracked_of_ne _ fun slot heq => hpoint ⟨slot, heq⟩] at hstep
          exact .inl hstep
      · exact .inr hmethod

end Outline

/-- The outline of a method. -/
def Method.outline (method : Method) : Outline :=
  (Outline.defineParams {} method.params).steps method.name 0 method.body

namespace Method

/-- The outline of a method up to one of its statements, and on from there. -/
theorem outline_eq {method : Method} {index : Nat} {statement : Statement}
    (hbody : method.body[index]? = some statement) :
    method.outline =
      (((Outline.defineParams {} method.params).steps method.name 0 (method.body.take index)).step
        { method := method.name, statement := index } statement).steps method.name (index + 1)
          (method.body.drop (index + 1)) := by
  obtain ⟨hlt, rfl⟩ := List.getElem?_eq_some_iff.mp hbody
  have hsplit : method.body =
      method.body.take index ++ method.body[index] :: method.body.drop (index + 1) := by
    rw [List.getElem_cons_drop, List.take_append_drop]
  have hlength : (method.body.take index).length = index := by
    rw [List.length_take, Nat.min_eq_left (Nat.le_of_lt hlt)]
  calc
    method.outline = (Outline.defineParams {} method.params).steps method.name 0
        (method.body.take index ++ method.body[index] :: method.body.drop (index + 1)) := by
      rw [← hsplit, outline]
    _ = _ := by
      rw [Outline.steps_append, hlength, Outline.steps, Nat.zero_add]

/-- The outline of a method has a site for each of its reflective calls. -/
theorem outline_sites {method : Method} {point : Point} {kind : ReflectionKind} :
    method.outline.sites[point]? = some kind ↔
      ∃ (index : Nat) (cls : String) (member : Option String),
        point = { method := method.name, statement := index } ∧
          method.body[index]? = some (.reflect kind cls member) := by
  constructor
  · intro hsite
    rcases Outline.reflect_of_steps_sites _ hsite with hnone | ⟨later, cls, member, rfl, hbody⟩
    · simp at hnone
    · exact ⟨later, cls, member, by rw [Nat.zero_add], hbody⟩
  · rintro ⟨index, cls, member, rfl, hbody⟩
    rw [outline_eq hbody, Outline.steps_sites_of_lt _ (Nat.lt_succ_self index),
      Outline.step_sites]
    exact Std.ExtTreeMap.getElem?_insert_self

/-- The points that a method tracks are its own. -/
theorem method_of_outline_tracked {method : Method} {point : Point} {box : Nat}
    (htracked : method.outline.tracked[point]? = some box) : point.method = method.name := by
  rcases Outline.method_of_steps_tracked _ htracked with hnone | hmethod
  · simp at hnone
  · exact hmethod

end Method

end StringReach
