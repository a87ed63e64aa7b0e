import StringReach.Proofs.Collection
import StringReach.Proofs.Resolution
import StringReach.Proofs.SingleAssignment

/-!
# Evaluating a method forwards

A method that reads no field, and no local before it is defined, can be evaluated statement by
statement over what is known of its locals (`Method.environment?`). Collecting such a method is to
compile it: `Method.collect_evaluates` says that the boxes of its locals are solved to what the
evaluator knows of them in the end, and the operands of its reflective calls to what it knows when
the call is reached, whatever was collected before and whatever the method does later.

The proof numbers the values in the order in which the boxes of the outline are made
(`Outline.Computes`). A statement adds a value and leaves the others alone.
-/

namespace StringReach

/-- What is known of the value of each local. -/
abbrev Environment := Std.ExtTreeMap String Solution

namespace Statement

/-- The value of the local that a statement defines. Nothing is known of the value of a field. -/
def value? (env : Environment) : Statement → Option Solution
  | .const _ value => some (.literal value)
  | .assign _ src => env[src]?
  | .concat _ left right => do return (← env[left]?).concat (← env[right]?)
  | .append target value _ => do return (← env[target]?).concat (← env[value]?)
  | .phi _ sources => do return .mergeAll (← sources.mapM fun source => env[source]?)
  | .param _ => some .wildcard
  | .unknown _ => some .warning
  | .invoke _ _ _ => some .wildcard
  | .storeField _ _ => none
  | .loadField _ _ => none
  | .reflect _ _ _ => none

/-- What is known after a statement. -/
def evaluate? (env : Environment) (statement : Statement) : Option Environment :=
  match statement.dest? with
  | some dest => (statement.value? env).map (env.insert dest)
  | none => some env

/-- The operands of a statement that are resolved, each with its slot and its local. -/
def slots : Statement → List (String × String)
  | .reflect _ cls member =>
      (Point.classSlot, cls) :: member.toList.map fun member => (Point.memberSlot, member)
  | _ => []

/-- What a statement defines is known after it, and what was known stays known. -/
theorem mem_of_evaluate? {env env' : Environment} {statement : Statement}
    (hevaluate : statement.evaluate? env = some env') {name : String}
    (hname : statement.dest? = some name ∨ name ∈ env) : name ∈ env' := by
  rw [evaluate?] at hevaluate
  split at hevaluate
  · rename_i dest hdest
    obtain ⟨value, _, rfl⟩ := Option.map_eq_some_iff.mp hevaluate
    rw [hdest, Option.some.injEq] at hname
    rwa [Std.ExtTreeMap.mem_insert, Std.compare_eq_iff_eq]
  · rename_i hdest
    rw [hdest] at hname
    cases hevaluate
    exact hname.resolve_left (by simp)

end Statement

/-- What is known of the parameters of a method. -/
def Environment.ofParams (params : List String) : Environment :=
  params.foldl (fun env name => env.insert name .wildcard) ∅

/-- What is known when a method reaches the statement at `index`. -/
def Method.environment? (method : Method) (index : Nat) : Option Environment :=
  (method.body.take index).foldlM Statement.evaluate? (.ofParams method.params)

/-- Each statement reads only locals that are known or that a statement before it defines. -/
def DefinesBeforeUse (known : List String) : List Statement → Prop
  | [] => True
  | statement :: rest =>
      (∀ name ∈ statement.reads, name ∈ known) ∧
        DefinesBeforeUse (statement.dest?.toList ++ known) rest

instance DefinesBeforeUse.decidable (known : List String) :
    ∀ body : List Statement, Decidable (DefinesBeforeUse known body)
  | [] => inferInstanceAs (Decidable True)
  | statement :: rest =>
      have := decidable (statement.dest?.toList ++ known) rest
      inferInstanceAs (Decidable (_ ∧ _))

/-- A box is not recursive and has a solution. -/
structure Arena.SolvedTo (arena : Arena) (box : Handle) (solution : Solution) : Prop where
  acyclic : arena.isRecursive false box = .ok false
  solve : arena.solveAcyclic box = .ok solution

namespace Outline

/-! ## The values of the boxes -/

/-- The value of a box is put together from the values of boxes before it. -/
def ComputedAt (values : List Solution) (index : Nat) (content : Content) : Prop :=
  ∃ term parts, content = .term term ∧ term ≠ .pending ∧
    List.Forall₂ (fun child part => child < index ∧ values[child]? = some part) term.children
      parts ∧
    values[index]? = some (term.assemble parts)

/-- The values of the boxes of an outline, in order, and what is known of its locals. -/
structure Computes (outline : Outline) (values : List Solution) (env : Environment) : Prop where
  length : values.length = outline.boxes.length
  computed : ∀ {index : Nat} {content : Content}, outline.boxes[index]? = some content →
    ComputedAt values index content
  locals : ∀ name : String, Option.Rel (fun (box : Nat) solution => values[box]? = some solution)
    outline.locals[name]? env[name]?

/-- Values that are added leave a box alone. -/
theorem ComputedAt.mono {values values' : List Solution} {index : Nat} {content : Content}
    (hcomputed : ComputedAt values index content) (hvalues : values <+: values') :
    ComputedAt values' index content := by
  obtain ⟨term, parts, hcontent, hterm, hparts, hvalue⟩ := hcomputed
  refine ⟨term, parts, hcontent, hterm, hparts.imp ?_, get?_mono hvalues hvalue⟩
  intro child part hchild
  exact ⟨hchild.1, get?_mono hvalues hchild.2⟩

namespace Computes

variable {outline : Outline} {values : List Solution} {env : Environment}

/-- The empty outline has no values. -/
theorem empty : Computes {} [] ∅ where
  length := rfl
  computed hcontent := by simp at hcontent
  locals name := by
    simp only [Std.ExtTreeMap.getElem?_empty]
    exact .none

/-- A local that is known is read from a box with its value, and reading it changes nothing. -/
theorem read (hcomputes : Computes outline values env) {name : String} (hname : name ∈ env) :
    ∃ box solution, outline.read name = (box, outline) ∧ env[name]? = some solution ∧
      values[box]? = some solution := by
  have hlocal := hcomputes.locals name
  rw [Std.ExtTreeMap.getElem?_eq_some_getElem hname] at hlocal ⊢
  generalize hbox : outline.locals[name]? = found at hlocal
  cases hlocal with
  | @some box _ hvalue =>
      refine ⟨box, _, ?_, rfl, hvalue⟩
      rw [Outline.read, hbox]

/-- Locals that are known are read from boxes with their values. -/
theorem read_all (hcomputes : Computes outline values env) {names : List String}
    (hnames : ∀ name ∈ names, name ∈ env) :
    ∃ boxes parts, outline.readAll names = (boxes, outline) ∧
      names.mapM (fun name => env[name]?) = some parts ∧
      List.Forall₂ (fun box part => values[box]? = some part) boxes parts := by
  induction names with
  | nil => exact ⟨[], [], rfl, rfl, .nil⟩
  | cons name rest ih =>
      obtain ⟨box, solution, hread, hname, hvalue⟩ := hcomputes.read (hnames name (by simp))
      obtain ⟨boxes, parts, hrest, hparts, hvalues⟩ :=
        ih fun other hmem => hnames other (List.mem_cons_of_mem name hmem)
      refine ⟨box :: boxes, solution :: parts, ?_, ?_, .cons hvalue hvalues⟩
      · rw [readAll, hread]
        simp only [hrest]
      · rw [List.mapM_cons, hname, hparts]
        rfl

/-- No box of a known local is empty, so a local that is defined takes a new box. -/
theorem define_content_eq (hcomputes : Computes outline values env) (name : String)
    (content : Content) : outline.defineContent name content = outline.bindNew name content := by
  unfold defineContent alloc define
  dsimp only
  split
  · rfl
  · rename_i box hlocal
    rw [if_neg]
    · rfl
    -- The box of the local is an old one, and every old box has a value.
    intro hpending
    have hknown := hcomputes.locals name
    rw [hlocal] at hknown
    generalize env[name]? = found at hknown
    cases hknown with
    | some hvalue =>
        have hlt := (List.getElem?_eq_some_iff.mp hvalue).1
        rw [hcomputes.length] at hlt
        rw [List.getElem?_append_left hlt] at hpending
        obtain ⟨term, _, hterm, hne, _⟩ := hcomputes.computed hpending
        cases hterm
        exact hne rfl

/-- Defining a local as a term adds the value of the term. -/
theorem define_content (hcomputes : Computes outline values env) {term : Term}
    {parts : List Solution} (hterm : term ≠ .pending)
    (hparts : List.Forall₂ (fun child part => values[child]? = some part) term.children parts)
    (name : String) :
    Computes (outline.defineContent name (.term term)) (values ++ [term.assemble parts])
      (env.insert name (term.assemble parts)) := by
  have hmore : values <+: values ++ [term.assemble parts] := List.prefix_append _ _
  have hbox : (values ++ [term.assemble parts])[outline.boxes.length]? =
      some (term.assemble parts) := by
    rw [← hcomputes.length, List.getElem?_concat_length]
  rw [hcomputes.define_content_eq]
  refine ⟨?_, ?_, ?_⟩
  · show (values ++ [term.assemble parts]).length = (outline.boxes ++ [Content.term term]).length
    rw [List.length_append, List.length_append, hcomputes.length]
    rfl
  · intro index content hindex
    show ComputedAt (values ++ [term.assemble parts]) index content
    rw [bindNew] at hindex
    rcases Nat.lt_or_ge index outline.boxes.length with hlt | hge
    · rw [List.getElem?_append_left hlt] at hindex
      exact (hcomputes.computed hindex).mono hmore
    · obtain ⟨rfl, rfl⟩ : index = outline.boxes.length ∧ content = .term term := by grind
      refine ⟨term, parts, rfl, hterm, hparts.imp ?_, hbox⟩
      intro child part hchild
      have hlt := (List.getElem?_eq_some_iff.mp hchild).1
      rw [hcomputes.length] at hlt
      exact ⟨hlt, get?_mono hmore hchild⟩
  · intro other
    rw [bindNew, get?_insert_eq, get?_insert_eq]
    split
    · exact .some hbox
    · have hother := hcomputes.locals other
      generalize outline.locals[other]? = box at hother
      generalize env[other]? = solution at hother
      cases hother with
      | some hvalue => exact .some (get?_mono hmore hvalue)
      | none => exact .none

/-- Values depend on the boxes and the locals of an outline only. -/
theorem congr (hcomputes : Computes outline values env) {outline' : Outline}
    (hboxes : outline'.boxes = outline.boxes) (hlocals : outline'.locals = outline.locals) :
    Computes outline' values env where
  length := by rw [hboxes, hcomputes.length]
  computed hcontent := hcomputes.computed (hboxes ▸ hcontent)
  locals name := by
    rw [hlocals]
    exact hcomputes.locals name

/-- A known local is tracked at a box with its value, and no box is made. -/
theorem track_operand (hcomputes : Computes outline values env) {name : String}
    (hname : name ∈ env) (site : Point) (slot : String) :
    Computes (outline.trackOperand site slot name) values env ∧
      ∃ box solution,
        (outline.trackOperand site slot name).tracked[site.operand slot]? = some box ∧
        env[name]? = some solution ∧ values[box]? = some solution := by
  obtain ⟨box, solution, hread, hsolution, hvalue⟩ := hcomputes.read hname
  rw [trackOperand, hread]
  refine ⟨hcomputes.congr rfl rfl, box, solution, ?_, hsolution, hvalue⟩
  exact Std.ExtTreeMap.getElem?_insert_self

/-! ## One statement -/

/-- A statement that defines a local as a term adds the value of the term. -/
theorem step_define (hcomputes : Computes outline values env) {site : Point} {statement : Statement}
    {dest : String} {parts : List Solution} (term : Term) (hterm : term ≠ .pending)
    (hparts : List.Forall₂ (fun child part => values[child]? = some part) term.children parts)
    (hdest : statement.dest? = some dest)
    (hstep : outline.step site statement = outline.defineContent dest (.term term))
    (hvalue : statement.value? env = some (term.assemble parts)) :
    ∃ values' env', values <+: values' ∧ statement.evaluate? env = some env' ∧
      Computes (outline.step site statement) values' env' := by
  have hdefine := hcomputes.define_content hterm hparts dest
  refine ⟨_, _, List.prefix_append _ _, ?_, hstep ▸ hdefine⟩
  rw [Statement.evaluate?, hdest]
  simp only [hvalue, Option.map_some]

/-- A statement that reads known locals, and no field, does to the values of the boxes what the
evaluator does to what is known of the locals. -/
theorem step (hcomputes : Computes outline values env) {statement : Statement}
    (hreads : ∀ name ∈ statement.reads, name ∈ env)
    (hload : ∀ dest field, statement ≠ .loadField dest field) (site : Point) :
    ∃ values' env', values <+: values' ∧ statement.evaluate? env = some env' ∧
      Computes (outline.step site statement) values' env' := by
  cases statement with
  | const dest value => exact hcomputes.step_define (.terminal value) (by simp) .nil rfl rfl rfl
  | assign dest src =>
      obtain ⟨box, _, hread, hsrc, hvalue⟩ :=
        hcomputes.read (hreads src (by simp [Statement.reads]))
      refine hcomputes.step_define (.eq box) (by simp) (.cons hvalue .nil) rfl ?_ hsrc
      rw [Outline.step, hread]
  | concat dest left right | append left right dest =>
      obtain ⟨a, _, hleft, hfirst, ha⟩ := hcomputes.read (hreads left (by simp [Statement.reads]))
      obtain ⟨b, _, hright, hsecond, hb⟩ :=
        hcomputes.read (hreads right (by simp [Statement.reads]))
      refine hcomputes.step_define (.concat a b) (by simp) (.cons ha (.cons hb .nil)) rfl ?_ ?_
      · rw [Outline.step, hleft]
        simp only [hright]
      · rw [Statement.value?, hfirst, hsecond]
        rfl
  | phi dest sources =>
      have hknown : ∀ name ∈ sources, name ∈ env := hreads
      obtain ⟨boxes, parts, hread, hsources, hvalues⟩ := hcomputes.read_all hknown
      refine hcomputes.step_define (.union boxes) (by simp) hvalues rfl ?_ ?_
      · rw [Outline.step, hread]
      · rw [Statement.value?, hsources]
        rfl
  | param dest => exact hcomputes.step_define .parameter (by simp) .nil rfl rfl rfl
  | unknown dest => exact hcomputes.step_define .top (by simp) .nil rfl rfl rfl
  | storeField field value =>
      obtain ⟨box, _, hread, _⟩ := hcomputes.read (hreads value (by simp [Statement.reads]))
      refine ⟨values, env, List.prefix_refl _, rfl, ?_⟩
      rw [Outline.step, hread]
      exact hcomputes.congr rfl rfl
  | loadField dest field => exact absurd rfl (hload dest field)
  | invoke callee dest args =>
      cases dest with
      | none => exact ⟨values, env, List.prefix_refl _, rfl, hcomputes⟩
      | some dest => exact hcomputes.step_define (.call callee) (by simp) .nil rfl rfl rfl
  | reflect kind cls member =>
      obtain ⟨hcls, _⟩ := hcomputes.track_operand (hreads cls (by simp [Statement.reads])) site
        Point.classSlot
      refine ⟨values, env, List.prefix_refl _, rfl, ?_⟩
      cases member with
      | none => exact hcls.congr rfl rfl
      | some member =>
          obtain ⟨hmember, _⟩ := hcls.track_operand (hreads member (by simp [Statement.reads]))
            site Point.memberSlot
          exact hmember.congr rfl rfl

/-- The operands of a statement are tracked at boxes with the values of their locals. -/
theorem step_tracked (hcomputes : Computes outline values env) {statement : Statement}
    (hreads : ∀ name ∈ statement.reads, name ∈ env) {slot name : String}
    (hslot : (slot, name) ∈ statement.slots) (site : Point) :
    ∃ box solution, (outline.step site statement).tracked[site.operand slot]? = some box ∧
      env[name]? = some solution ∧ values[box]? = some solution := by
  cases statement with
  | reflect kind cls member =>
      obtain ⟨hcomputes', hcls⟩ := hcomputes.track_operand
        (hreads cls (by simp [Statement.reads])) site Point.classSlot
      cases member with
      | none =>
          obtain ⟨rfl, rfl⟩ : slot = Point.classSlot ∧ name = cls := by
            simpa [Statement.slots] using hslot
          exact hcls
      | some member =>
          have hoperand : slot = Point.classSlot ∧ name = cls ∨
              slot = Point.memberSlot ∧ name = member := by
            simpa [Statement.slots] using hslot
          rcases hoperand with ⟨rfl, rfl⟩ | ⟨rfl, rfl⟩
          · have hne : site.operand Point.classSlot ≠ site.operand Point.memberSlot := by
              simp [Point.operand, Point.classSlot, Point.memberSlot]
            obtain ⟨box, solution, htracked, hsolution⟩ := hcls
            exact ⟨box, solution, (track_operand_tracked_of_ne _ hne member).trans htracked,
              hsolution⟩
          · exact (hcomputes'.track_operand (hreads _ (by simp [Statement.reads])) site
              Point.memberSlot).2
  | const | assign | concat | append | phi | param | unknown | storeField | loadField | invoke =>
      simp [Statement.slots] at hslot

/-! ## All statements -/

/-- Parameters may be anything. -/
theorem define_params (hcomputes : Computes outline values env) (params : List String) :
    ∃ values', Computes (outline.defineParams params) values'
      (params.foldl (fun env name => env.insert name .wildcard) env) := by
  induction params generalizing outline values env with
  | nil => exact ⟨values, hcomputes⟩
  | cons name rest ih => exact ih (hcomputes.define_content (by simp) .nil name)

/-- Statements that read only locals defined before are evaluated one after the other. The
statements that follow find the locals known that they read. -/
theorem steps (hcomputes : Computes outline values env) {known : List String}
    {body later : List Statement} (hknown : ∀ name ∈ known, name ∈ env)
    (hdefined : DefinesBeforeUse known (body ++ later))
    (hloads : ∀ dest field, .loadField dest field ∉ body) (method : String) (index : Nat) :
    ∃ values' env' known', values <+: values' ∧ body.foldlM Statement.evaluate? env = some env' ∧
      Computes (outline.steps method index body) values' env' ∧ (∀ name ∈ known', name ∈ env') ∧
      DefinesBeforeUse known' later := by
  induction body generalizing outline values env known index with
  | nil => exact ⟨values, env, known, List.prefix_refl _, rfl, hcomputes, hknown, hdefined⟩
  | cons statement rest ih =>
      obtain ⟨hreads, hrest⟩ := hdefined
      obtain ⟨middle, env₁, hmiddle, hevaluate, hstep⟩ :=
        hcomputes.step (fun name hname => hknown name (hreads name hname))
          (fun dest field heq => hloads dest field (by simp [heq])) { method, statement := index }
      have hknown₁ : ∀ name ∈ statement.dest?.toList ++ known, name ∈ env₁ := by
        intro name hname
        rcases List.mem_append.mp hname with hdest | hname
        · exact Statement.mem_of_evaluate? hevaluate (.inl (Option.mem_toList.mp hdest))
        · exact Statement.mem_of_evaluate? hevaluate (.inr (hknown name hname))
      obtain ⟨values', env', known', hvalues, hfold, hlast⟩ :=
        ih hstep hknown₁ hrest
          (fun dest field hmem => hloads dest field (List.mem_cons_of_mem _ hmem)) (index + 1)
      refine ⟨values', env', known', hmiddle.trans hvalues, ?_, hlast⟩
      rw [List.foldlM_cons, hevaluate]
      exact hfold

end Computes

end Outline

/-- A parameter is known. -/
theorem Environment.mem_of_mem_params {params : List String} {name : String}
    (hname : name ∈ params) : name ∈ ofParams params := by
  have hfold : ∀ (env : Environment), name ∈ params ∨ name ∈ env →
      name ∈ params.foldl (fun env name => env.insert name .wildcard) env := by
    clear hname
    induction params with
    | nil => simp
    | cons first rest ih =>
        intro env hname
        refine ih _ ?_
        rw [Std.ExtTreeMap.mem_insert, Std.compare_eq_iff_eq]
        grind
  exact hfold ∅ (.inl hname)

/-- A method has been evaluated up to the statement at `index`: the values of the boxes that it has
made, and what is known, which is all that the statement reads. -/
structure Method.EvaluatedTo (method : Method) (index : Nat) (values : List Solution)
    (env : Environment) : Prop where
  environment : method.environment? index = some env
  computes : Outline.Computes ((Outline.defineParams {} method.params).steps method.name 0
    (method.body.take index)) values env
  reads : ∀ statement, method.body[index]? = some statement →
    ∀ name ∈ statement.reads, name ∈ env

/-- A method can be evaluated up to each statement and on from there to its end, and the values that
it has on the way it still has in the end. -/
theorem Method.exists_evaluated_to {method : Method}
    (hloads : ∀ dest field, .loadField dest field ∉ method.body)
    (hdefined : DefinesBeforeUse method.params method.body) (index : Nat) :
    ∃ values env values' env', method.EvaluatedTo index values env ∧ values <+: values' ∧
      method.environment? method.body.length = some env' ∧
      Outline.Computes method.outline values' env' := by
  have hsplit := List.take_append_drop index method.body
  have hfirst : DefinesBeforeUse method.params
      (method.body.take index ++ method.body.drop index) := by
    rwa [hsplit]
  obtain ⟨start, hparams⟩ := Outline.Computes.empty.define_params method.params
  obtain ⟨values, env, known, _, henv, hvalues, hknown, hlater⟩ :=
    hparams.steps (fun _ => Environment.mem_of_mem_params) hfirst
      (fun dest field hmem => hloads dest field (List.mem_of_mem_take hmem)) method.name 0
  have hreads : ∀ statement, method.body[index]? = some statement →
      ∀ name ∈ statement.reads, name ∈ env := by
    intro statement hbody name hname
    obtain ⟨hlt, rfl⟩ := List.getElem?_eq_some_iff.mp hbody
    rw [List.drop_eq_getElem_cons hlt] at hlater
    exact hknown name (hlater.1 name hname)
  have hsecond : DefinesBeforeUse known (method.body.drop index ++ []) := by
    rwa [List.append_nil]
  obtain ⟨values', env', _, hmore, henv', hvalues', _⟩ :=
    hvalues.steps hknown hsecond
      (fun dest field hmem => hloads dest field (List.mem_of_mem_drop hmem)) method.name
      (0 + (method.body.take index).length)
  have hreach : method.environment? index = some env := henv
  refine ⟨values, env, values', env', ⟨hreach, hvalues, hreads⟩, hmore, ?_, ?_⟩
  · have hwhole : method.environment? method.body.length = (method.environment? index).bind
        fun env => (method.body.drop index).foldlM Statement.evaluate? env := by
      rw [environment?, List.take_length, ← hsplit, List.foldlM_append, hsplit]
      rfl
    rw [hwhole, hreach]
    exact henv'
  · rwa [← Outline.steps_append, hsplit] at hvalues'

/-! ## The boxes of an arena -/

section Boxes

variable {ι : Type} {plan : ι → Outline} {labels : List (Label ι)} {arena : Arena} {fields : Fields}
  {owner : ι}

/-- Two lists that are related to a third one are related to each other. -/
theorem forall₂_of_common {α β γ : Type} {R : α → β → Prop} {S : α → γ → Prop} {T : β → γ → Prop}
    (hcommon : ∀ a b c, R a b → S a c → T b c) {items : List α} {left : List β} {right : List γ}
    (hleft : List.Forall₂ R items left) (hright : List.Forall₂ S items right) :
    List.Forall₂ T left right := by
  induction hleft generalizing right with
  | nil =>
      cases hright
      exact .nil
  | cons hfirst _ ih =>
      cases hright with
      | cons hother hrest => exact .cons (hcommon _ _ _ hfirst hother) (ih hrest)

/-- A term that shows another has its children in the same order and is solved in the same way. -/
theorem Shows.children {term shown : Term} (hshows : Shows labels owner (.term term) shown) :
    List.Forall₂ (fun item (box : Handle) => labels[box]? = some (.own owner item)) term.children
      shown.children ∧
    (∀ parts, shown.assemble parts = term.assemble parts) ∧
    (shown = .pending → term = .pending) := by
  cases hshows with
  | leaf _ hleaf =>
      rw [Term.children_eq_nil_of_not_compound hleaf]
      exact ⟨.nil, fun _ => rfl, id⟩
  | union items boxes hitems => exact ⟨hitems, fun _ => rfl, nofun⟩
  | concat _ _ _ _ hleft hright =>
      refine ⟨.cons hleft (.cons hright .nil), fun parts => ?_, nofun⟩
      rcases parts with _ | ⟨_, _ | ⟨_, _ | _⟩⟩ <;> rfl
  | eq _ _ hinner =>
      refine ⟨.cons hinner .nil, fun parts => ?_, nofun⟩
      rcases parts with _ | ⟨_, _ | _⟩ <;> rfl

/-- A box has the value of its number. -/
theorem Outline.Computes.has_value {values : List Solution} {env : Environment}
    (hcomputes : Computes (plan owner) values env) (hlayout : Layout plan labels arena fields)
    {index : Nat} {box : Handle} {solution : Solution}
    (hlabel : labels[box]? = some (.own owner index)) (hvalue : values[index]? = some solution) :
    arena.HasValue box solution := by
  -- A value is put together from values before it, so the induction is on its number.
  induction index using Nat.strong_induction_on generalizing box solution with
  | h index ih =>
      cases hlayout.placed hlabel with
      | own _ _ content shown hcontent hget hshows =>
          obtain ⟨term, parts, rfl, hterm, hparts, hassemble⟩ := hcomputes.computed hcontent
          obtain ⟨hchildren, hsame, hpending⟩ := hshows.children
          have hbelow : List.Forall₂ arena.HasValue shown.children parts := by
            refine forall₂_of_common ?_ hchildren hparts
            intro item child part hchild hpart
            exact ih item hpart.1 hchild hpart.2
          cases hvalue.symm.trans hassemble
          rw [← hsame]
          exact .assemble hget (fun heq => hterm (hpending heq)) hbelow

/-- A box with a value is solved to it. -/
theorem Arena.HasValue.solved_to {box : Handle} {solution : Solution}
    (hvalue : arena.HasValue box solution) : arena.SolvedTo box solution :=
  ⟨hvalue.ends.intact.check_clear_iff.mpr hvalue.ends, hvalue.solve_acyclic⟩

end Boxes

/-! ## Collecting after other methods -/

/-- Whatever is collected, the arena holds outlines, one for each time that a method was collected,
and there is room for another. -/
theorem exists_layout_of_collect_all {methods : List Method} {before context : Context}
    {plan : Nat → Outline} {labels : List (Label Nat)}
    (hlayout : Layout plan labels before.arena before.fields) (owner : Nat)
    (hnew : ∀ other, owner ≤ other → plan other = {})
    (hcollect : before.collectAll methods = .ok context) :
    ∃ plan' labels' owner', Layout plan' labels' context.arena context.fields ∧
      ∀ other : Nat, owner' ≤ other → plan' other = {} := by
  induction methods generalizing before plan labels owner with
  | nil =>
      cases hcollect
      exact ⟨plan, labels, owner, hlayout, hnew⟩
  | cons method rest ih =>
      obtain ⟨frame, labels', hframe, _, hfollows⟩ :=
        collect_follows hlayout (hnew owner (Nat.le_refl owner)) method
      rw [Context.collectAll, hframe] at hcollect
      refine ih hfollows.layout (owner + 1) ?_ hcollect
      intro other hother
      rw [Function.update_of_ne (by omega)]
      exact hnew other (by omega)

section Collected

variable {base : Nat → Outline} {labels : List (Label Nat)} {owner : Nat} {before : Context}
  {outline : Outline} {frame : Frame} {values : List Solution} {env : Environment}

/-- A collected box is solved to the value that the evaluator gives it. -/
theorem Follows.solved_to (hfollows : Follows base owner before outline labels frame)
    (hcomputes : Outline.Computes outline values env) {index : Nat} {box : Handle}
    {solution : Solution} (hlabel : labels[box]? = some (.own owner index))
    (hvalue : values[index]? = some solution) : frame.context.arena.SolvedTo box solution := by
  have hplan : Outline.Computes (Function.update base owner outline owner) values env := by
    rwa [Function.update_self]
  exact (hplan.has_value hfollows.layout hlabel hvalue).solved_to

/-- The box of a local is solved to what is known of the local. -/
theorem Follows.local_solved_to (hfollows : Follows base owner before outline labels frame)
    (hcomputes : Outline.Computes outline values env) (name : String) :
    Option.Rel frame.context.arena.SolvedTo (frame.find? name) env[name]? := by
  have hlocal := hfollows.locals name
  have hvalue := hcomputes.locals name
  rw [Frame.find?]
  generalize outline.locals[name]? = index at hlocal hvalue
  generalize frame.locals[name]? = box at hlocal
  generalize env[name]? = solution at hvalue
  cases hvalue with
  | none =>
      cases hlocal
      exact .none
  | some hvalue =>
      cases hlocal with
      | some hlabel => exact .some (hfollows.solved_to hcomputes hlabel hvalue)

/-- The box of a tracked point is solved to its value. -/
theorem Follows.tracked_solved_to (hfollows : Follows base owner before outline labels frame)
    (hcomputes : Outline.Computes outline values env) {point : Point} {index : Nat}
    {solution : Solution} (htracked : outline.tracked[point]? = some index)
    (hvalue : values[index]? = some solution) :
    ∃ box, frame.context.tracked[point]? = some box ∧
      frame.context.arena.SolvedTo box solution := by
  have hpoint := hfollows.tracked point
  rw [htracked] at hpoint
  obtain ⟨box, hbox, hlabel⟩ := hpoint
  exact ⟨box, hbox, hfollows.solved_to hcomputes hlabel hvalue⟩

end Collected

/-- A method that reads no field, and no local before it is defined, is compiled correctly: it can
be collected in every context, the box of each local is solved to what the evaluator knows of the
local in the end, and each operand of a reflective call to what it knows at the call. -/
theorem Method.collect_evaluates {earlier : List Method} {context : Context} {method : Method}
    (hcontext : Context.empty.collectAll earlier = .ok context)
    (hloads : ∀ dest field, .loadField dest field ∉ method.body)
    (hdefined : DefinesBeforeUse method.params method.body) :
    ∃ frame, method.collect context = .ok frame ∧
      (∃ env, method.environment? method.body.length = some env ∧
        ∀ name, Option.Rel frame.context.arena.SolvedTo (frame.find? name) env[name]?) ∧
      ∀ (index : Nat) (statement : Statement), method.body[index]? = some statement →
        ∃ env, method.environment? index = some env ∧
          ∀ slot name, (slot, name) ∈ statement.slots →
            ∃ box solution, env[name]? = some solution ∧
              frame.context.tracked[Point.operand { method := method.name, statement := index }
                slot]? = some box ∧
              frame.context.arena.SolvedTo box solution := by
  obtain ⟨plan, labels, owner, hlayout, hnew⟩ :=
    exists_layout_of_collect_all (.empty fun _ : Nat => rfl) 0 (fun _ _ => rfl) hcontext
  obtain ⟨frame, labels', hcollect, _, hfollows⟩ :=
    collect_follows hlayout (hnew owner (Nat.le_refl owner)) method
  refine ⟨frame, hcollect, ?_, ?_⟩
  · obtain ⟨_, _, _, env, _, _, henv, hcomputes⟩ := Method.exists_evaluated_to hloads hdefined 0
    exact ⟨env, henv, hfollows.local_solved_to hcomputes⟩
  · intro index statement hbody
    obtain ⟨values, env, values', _, hreach, hmore, _, hcomputes⟩ :=
      Method.exists_evaluated_to hloads hdefined index
    refine ⟨env, hreach.environment, ?_⟩
    intro slot name hslot
    let site : Point := { method := method.name, statement := index }
    obtain ⟨item, solution, hstep, hname, hvalue⟩ :=
      hreach.computes.step_tracked (hreach.reads statement hbody) hslot site
    have htracked : method.outline.tracked[site.operand slot]? = some item := by
      rw [Method.outline_eq hbody, Outline.steps_tracked_of_lt _ (Nat.lt_succ_self index), hstep]
    obtain ⟨box, hbox, hsolved⟩ :=
      hfollows.tracked_solved_to hcomputes htracked (get?_mono hmore hvalue)
    exact ⟨box, solution, hname, hbox, hsolved⟩

/-- A method whose loop reads a local before it is defined, and that fills a field. -/
def looping : Method where
  name := "Main.loop"
  body := [
    .assign "text" "next",
    .append "next" "text" none,
    .storeField "Main.path" "text",
    .loadField "next" "Main.path"]

/-- A method that appends to a local, uses it, and then gives it another value. -/
def suffixing : Method where
  name := "Main.rename"
  params := ["suffix"]
  body := [
    .const "name" "app.",
    .append "name" "suffix" none,
    .unknown "other",
    .phi "either" ["name", "other", "name"],
    .reflect .methodCall "name" (some "either"),
    .storeField "Main.path" "name",
    .const "name" "done",
    .invoke "Main.loop" (some "other") ["absent"]]

/-- After a method with a loop was collected, the boxes of the other one solve to what its
statements compute: the locals at the end, and the operand of the reflective call at the call. -/
theorem Method.collect_evaluates_suffixing :
    DefinesBeforeUse suffixing.params suffixing.body ∧
    ∃ context, Context.empty.collectAll [looping] = .ok context ∧
      ∃ frame, suffixing.collect context = .ok frame ∧
        (∃ env, suffixing.environment? 8 = some env ∧
          ∀ name, Option.Rel frame.context.arena.SolvedTo (frame.find? name) env[name]?) ∧
        ∃ env, suffixing.environment? 4 = some env ∧
          ∃ box solution, env["either"]? = some solution ∧
            frame.context.tracked[Point.operand { method := "Main.rename", statement := 4 }
              Point.memberSlot]? = some box ∧
            frame.context.arena.SolvedTo box solution := by
  have hdefined : DefinesBeforeUse suffixing.params suffixing.body := by decide
  have hnames : ([looping].map (·.name)).Nodup := by decide
  obtain ⟨context, _, hcontext, _⟩ := exists_collected hnames
  obtain ⟨frame, hcollect, hlocals, hoperands⟩ :=
    Method.collect_evaluates hcontext (by simp [suffixing]) hdefined
  obtain ⟨env, henv, hslots⟩ := hoperands 4 _ rfl
  exact ⟨hdefined, context, hcontext, frame, hcollect, hlocals, env, henv,
    hslots _ _ (by simp [Statement.slots])⟩

end StringReach
