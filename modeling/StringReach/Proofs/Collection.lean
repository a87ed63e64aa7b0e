import StringReach.Proofs.Layout

/-!
# Collecting methods

The collector and the outline of a method go in lockstep (`Follows`), so collecting cannot fail and
leaves the outline of the method in the arena. After several methods the arena holds their outlines
and nothing else (`Collected`), whatever the order in which they were collected. In particular no
handle of the context dangles (`Collected.intact`).
-/

namespace StringReach

variable {ι : Type} {base : ι → Outline} {labels labels' : List (Label ι)} {owner : ι}
  {outline : Outline}

/-! ## The collector follows the outline -/

/-- The box of a point is the one that an outline has for it, or the box that the point had before.
-/
def TrackedAs (labels : List (Label ι)) (owner : ι) (before now : Option Handle) :
    Option Nat → Prop
  | some index => ∃ box, now = some box ∧ labels[box]? = some (.own owner index)
  | none => now = before

/-- A frame that began in the context `before` has collected the same statements as an outline. -/
structure Follows [DecidableEq ι] (base : ι → Outline) (owner : ι) (before : Context)
    (outline : Outline) (labels : List (Label ι)) (frame : Frame) : Prop where
  layout : Layout (Function.update base owner outline) labels frame.context.arena
    frame.context.fields
  locals : ∀ name : String,
    Option.Rel (fun index (box : Handle) => labels[box]? = some (.own owner index))
      outline.locals[name]? frame.locals[name]?
  tracked : ∀ point : Point, TrackedAs labels owner before.tracked[point]?
    frame.context.tracked[point]? outline.tracked[point]?
  sites : ∀ point : Point,
    frame.context.sites[point]? = outline.sites[point]?.or before.sites[point]?

variable [DecidableEq ι] {before : Context} {frame : Frame}

namespace Follows

/-- The locals and points of a frame do not mind labels that are added. -/
theorem extend (hfollows : Follows base owner before outline labels frame) {outline' : Outline}
    (context : Context) (hlabels : labels <+: labels')
    (hlocals : outline'.locals = outline.locals) (htracked : outline'.tracked = outline.tracked)
    (hsites : outline'.sites = outline.sites)
    (hcontext : context.tracked = frame.context.tracked ∧ context.sites = frame.context.sites)
    (hlayout : Layout (Function.update base owner outline') labels' context.arena context.fields) :
    Follows base owner before outline' labels' { frame with context } where
  layout := hlayout
  locals name := by
    have hname := hfollows.locals name
    rw [hlocals]
    generalize outline.locals[name]? = index at hname
    generalize frame.locals[name]? = box at hname
    cases hname with
    | none => exact .none
    | some hlabel => exact .some (get?_mono hlabels hlabel)
  tracked point := by
    have hpoint := hfollows.tracked point
    show TrackedAs labels' owner _ context.tracked[point]? _
    rw [htracked, hcontext.1]
    cases hindex : outline.tracked[point]? with
    | none => rwa [hindex] at hpoint
    | some index =>
        rw [hindex] at hpoint
        obtain ⟨box, hbox, hlabel⟩ := hpoint
        exact ⟨box, hbox, get?_mono hlabels hlabel⟩
  sites point := by
    show context.sites[point]? = _
    rw [hsites, hcontext.2]
    exact hfollows.sites point

/-- A local is bound to a box. -/
theorem bind (hfollows : Follows base owner before outline labels frame) {box : Handle}
    {index : Nat} (hbox : labels[box]? = some (.own owner index)) (name : String) :
    Follows base owner before { outline with locals := outline.locals.insert name index } labels
      { frame with locals := frame.locals.insert name box } where
  layout := hfollows.layout.congr rfl rfl
  locals other := by
    simp only [get?_insert_eq]
    split
    · exact .some hbox
    · exact hfollows.locals other
  tracked := hfollows.tracked
  sites := hfollows.sites

/-- A point is tracked at a box. -/
theorem track (hfollows : Follows base owner before outline labels frame) {box : Handle}
    {index : Nat} (hbox : labels[box]? = some (.own owner index)) (point : Point) :
    Follows base owner before { outline with tracked := outline.tracked.insert point index } labels
      { frame with context := frame.context.track point box } where
  layout := hfollows.layout.congr rfl rfl
  locals := hfollows.locals
  tracked other := by
    simp only [Context.track, get?_insert_eq]
    split
    · exact ⟨box, rfl, hbox⟩
    · exact hfollows.tracked other
  sites := hfollows.sites

/-- A reflective call is recorded. -/
theorem add_site (hfollows : Follows base owner before outline labels frame) (site : Point)
    (kind : ReflectionKind) :
    Follows base owner before { outline with sites := outline.sites.insert site kind } labels
      { frame with context := frame.context.addSite site kind } where
  layout := hfollows.layout.congr rfl rfl
  locals := hfollows.locals
  tracked := hfollows.tracked
  sites point := by
    simp only [Context.addSite, get?_insert_eq]
    split
    · rfl
    · exact hfollows.sites point

/-- A new box of the method. -/
theorem alloc (hfollows : Follows base owner before outline labels frame) {content : Content}
    {term : Term} (hshows : Shows labels owner content term) :
    ∃ labels', labels <+: labels' ∧
      labels'[(frame.alloc term).1]? = some (.own owner (outline.alloc content).1) ∧
      Follows base owner before (outline.alloc content).2 labels' (frame.alloc term).2 := by
  refine ⟨_, List.prefix_append _ _, ?_,
    hfollows.extend _ (List.prefix_append _ _) rfl rfl rfl ⟨rfl, rfl⟩
      (hfollows.layout.push_own hshows)⟩
  exact get?_concat_eq_some.mpr (.inr ⟨hfollows.layout.size.symm, rfl⟩)

/-- A local is read from the same box. -/
theorem read (hfollows : Follows base owner before outline labels frame) (name : String) :
    ∃ labels', labels <+: labels' ∧
      labels'[(frame.read name).1]? = some (.own owner (outline.read name).1) ∧
      Follows base owner before (outline.read name).2 labels' (frame.read name).2 := by
  have hname := hfollows.locals name
  rw [Frame.read, Frame.find?, Outline.read]
  generalize outline.locals[name]? = index at hname
  generalize frame.locals[name]? = box at hname
  cases hname with
  | some hlabel => exact ⟨labels, List.prefix_refl _, hlabel, hfollows⟩
  | none =>
      have hshows : Shows labels owner (.term .pending) .pending := .leaf .pending rfl
      obtain ⟨labels', hlabels, hlabel, hnew⟩ := hfollows.alloc hshows
      exact ⟨labels', hlabels, hlabel, hnew.bind hlabel name⟩

/-- Several locals are read from the same boxes. -/
theorem read_all (hfollows : Follows base owner before outline labels frame) (names : List String) :
    ∃ labels', labels <+: labels' ∧
      List.Forall₂ (fun index (box : Handle) => labels'[box]? = some (.own owner index))
        (outline.readAll names).1 (frame.readAll names).1 ∧
      Follows base owner before (outline.readAll names).2 labels' (frame.readAll names).2 := by
  induction names generalizing outline labels frame with
  | nil => exact ⟨labels, List.prefix_refl _, .nil, hfollows⟩
  | cons name rest ih =>
      obtain ⟨middle, hmiddle, hfirst, hread⟩ := hfollows.read name
      obtain ⟨labels', hlabels, hothers, hrest⟩ := ih hread
      exact ⟨labels', hmiddle.trans hlabels, .cons (get?_mono hlabels hfirst) hothers, hrest⟩

/-- A local is defined in the same way. -/
theorem define (hfollows : Follows base owner before outline labels frame) {box : Handle}
    {index : Nat} (hbox : labels[box]? = some (.own owner index)) (name : String) :
    ∃ frame', frame.define name box = .ok frame' ∧
      Follows base owner before (outline.define name index) labels frame' := by
  have hname := hfollows.locals name
  have hrebound := hfollows.bind hbox name
  rw [Outline.define]
  generalize hindex : outline.locals[name]? = index' at hname
  generalize hfind : frame.locals[name]? = old at hname
  cases hname with
  | none => exact ⟨_, Frame.define_new hfind box, hrebound⟩
  | @some index' old hlabel =>
      cases hfollows.layout.placed hlabel with
      | own _ _ content term hcontent hget hshows =>
          rw [Function.update_self] at hcontent
          by_cases hpending : content = .term .pending
          · subst hpending
            cases hshows
            obtain ⟨value, hvalue⟩ := hfollows.layout.get hbox
            refine ⟨_, Frame.define_pending hfind hget hvalue, ?_⟩
            simp only [hcontent, if_true]
            exact hfollows.extend _ (List.prefix_refl _) rfl rfl rfl ⟨rfl, rfl⟩
              (hfollows.layout.refine hlabel hbox)
          · have hterm : term ≠ .pending := by
              rintro rfl
              cases hshows
              exact hpending rfl
            refine ⟨_, Frame.define_rebind hfind hget hterm box, ?_⟩
            simp only [hcontent, Option.some.injEq, hpending, if_false]
            exact hrebound

/-- A local is defined as the same content. -/
theorem define_content (hfollows : Follows base owner before outline labels frame)
    {content : Content} {term : Term} (hshows : Shows labels owner content term) (name : String) :
    ∃ frame' labels', frame.defineTerm name term = .ok frame' ∧ labels <+: labels' ∧
      Follows base owner before (outline.defineContent name content) labels' frame' := by
  obtain ⟨labels', hlabels, hlabel, halloc⟩ := hfollows.alloc hshows
  obtain ⟨frame', hdefine, hframe⟩ := halloc.define hlabel name
  exact ⟨frame', labels', hdefine, hlabels, hframe⟩

/-- An operand is tracked at the same box. -/
theorem track_operand (hfollows : Follows base owner before outline labels frame) (site : Point)
    (slot name : String) :
    ∃ labels', labels <+: labels' ∧
      Follows base owner before (outline.trackOperand site slot name) labels'
        (frame.trackOperand site slot name) := by
  obtain ⟨labels', hlabels, hlabel, hread⟩ := hfollows.read name
  exact ⟨labels', hlabels, hread.track hlabel (site.operand slot)⟩

/-- A local is defined as the values of two others put together. -/
theorem define_concat (hfollows : Follows base owner before outline labels frame)
    (dest left right : String) :
    ∃ frame' labels',
      ((frame.read left).2.read right).2.defineTerm dest
        (.concat (frame.read left).1 ((frame.read left).2.read right).1) = .ok frame' ∧
      labels <+: labels' ∧
      Follows base owner before
        (((outline.read left).2.read right).2.defineContent dest
          (.term (.concat (outline.read left).1 ((outline.read left).2.read right).1)))
        labels' frame' := by
  obtain ⟨first, hfirst, hleft, hread⟩ := hfollows.read left
  obtain ⟨second, hsecond, hright, hread'⟩ := hread.read right
  obtain ⟨frame', labels', hdefine, hlabels, hframe⟩ :=
    hread'.define_content (.concat _ _ _ _ (get?_mono hsecond hleft) hright) dest
  exact ⟨frame', labels', hdefine, (hfirst.trans hsecond).trans hlabels, hframe⟩

/-- A field is loaded from the box that has its label. -/
theorem load (hfollows : Follows base owner before outline labels frame) (name : String) :
    ∃ box fields arena labels',
      frame.context.fields.load frame.context.arena name = (box, fields, arena) ∧
      labels <+: labels' ∧ labels'[box]? = some (.field name) ∧
      Follows base owner before outline labels'
        { frame with context := { frame.context with fields, arena } } := by
  rw [Fields.load]
  cases hfind : frame.context.fields.find? name with
  | some box =>
      exact ⟨box, _, _, labels, rfl, List.prefix_refl _, (hfollows.layout.field name box).mp hfind,
        hfollows⟩
  | none =>
      refine ⟨_, _, _, labels ++ [.field name], rfl, List.prefix_append _ _, ?_,
        hfollows.extend _ (List.prefix_append _ _) rfl rfl rfl ⟨rfl, rfl⟩
          (hfollows.layout.push_field hfind)⟩
      exact get?_concat_eq_some.mpr (.inr ⟨hfollows.layout.size.symm, rfl⟩)

/-- A statement adds the same facts. -/
theorem step (hfollows : Follows base owner before outline labels frame) (site : Point)
    (statement : Statement) :
    ∃ frame' labels', frame.step site statement = .ok frame' ∧ labels <+: labels' ∧
      Follows base owner before (outline.step site statement) labels' frame' := by
  cases statement with
  | const dest value => exact hfollows.define_content (.leaf (.terminal value) rfl) dest
  | param dest => exact hfollows.define_content (.leaf .parameter rfl) dest
  | unknown dest => exact hfollows.define_content (.leaf .top rfl) dest
  | concat dest left right => exact hfollows.define_concat dest left right
  | append target value dest => exact hfollows.define_concat (dest.getD target) target value
  | assign dest src =>
      obtain ⟨middle, hmiddle, hsrc, hread⟩ := hfollows.read src
      obtain ⟨frame', labels', hdefine, hlabels, hframe⟩ :=
        hread.define_content (.eq _ _ hsrc) dest
      exact ⟨frame', labels', hdefine, hmiddle.trans hlabels, hframe⟩
  | phi dest sources =>
      obtain ⟨middle, hmiddle, hitems, hread⟩ := hfollows.read_all sources
      obtain ⟨frame', labels', hdefine, hlabels, hframe⟩ :=
        hread.define_content (.union _ _ hitems) dest
      exact ⟨frame', labels', hdefine, hmiddle.trans hlabels, hframe⟩
  | storeField field value =>
      obtain ⟨middle, hmiddle, hvalue, hread⟩ := hfollows.read value
      obtain ⟨box, fields, arena, labels', hstore, hlabels, hlayout⟩ :=
        hread.layout.store hvalue field
      refine ⟨_, labels', ?_, hmiddle.trans hlabels,
        hread.extend { (frame.read value).2.context with fields, arena } hlabels
          rfl rfl rfl ⟨rfl, rfl⟩ hlayout⟩
      show ((frame.read value).2.context.fields.store (frame.read value).2.context.arena field
        (frame.read value).1 >>= _) = _
      rw [hstore]
      rfl
  | loadField dest field =>
      obtain ⟨box, fields, arena, middle, hload, hmiddle, hbox, hframe⟩ := hfollows.load field
      obtain ⟨frame', labels', hdefine, hlabels, hframe'⟩ :=
        hframe.define_content (.load field box hbox) dest
      refine ⟨frame', labels', ?_, hmiddle.trans hlabels, hframe'⟩
      rw [Frame.step, hload]
      exact hdefine
  | invoke callee dest args =>
      cases dest with
      | none => exact ⟨frame, labels, rfl, List.prefix_refl _, hfollows⟩
      | some dest => exact hfollows.define_content (.leaf (.call callee) rfl) dest
  | reflect kind cls member =>
      obtain ⟨middle, hmiddle, hcls⟩ := hfollows.track_operand site Point.classSlot cls
      cases member with
      | none => exact ⟨_, middle, rfl, hmiddle, hcls.add_site site kind⟩
      | some member =>
          obtain ⟨labels', hlabels, hmember⟩ := hcls.track_operand site Point.memberSlot member
          exact ⟨_, labels', rfl, hmiddle.trans hlabels, hmember.add_site site kind⟩

/-- The parameters add the same facts. -/
theorem define_params (hfollows : Follows base owner before outline labels frame)
    (params : List String) :
    ∃ frame' labels', frame.defineParams params = .ok frame' ∧ labels <+: labels' ∧
      Follows base owner before (outline.defineParams params) labels' frame' := by
  induction params generalizing outline labels frame with
  | nil => exact ⟨frame, labels, rfl, List.prefix_refl _, hfollows⟩
  | cons name rest ih =>
      have hshows : Shows labels owner (.term .parameter) .parameter := .leaf .parameter rfl
      obtain ⟨middle, labels', hdefine, hlabels, hmiddle⟩ := hfollows.define_content hshows name
      obtain ⟨frame', labels'', hrest, hlabels', hframe⟩ := ih hmiddle
      refine ⟨frame', labels'', ?_, hlabels.trans hlabels', hframe⟩
      rw [Frame.defineParams, hdefine]
      exact hrest

/-- The statements of a method add the same facts. -/
theorem steps (hfollows : Follows base owner before outline labels frame) (method : String)
    (index : Nat) (body : List Statement) :
    ∃ frame' labels', frame.steps method index body = .ok frame' ∧ labels <+: labels' ∧
      Follows base owner before (outline.steps method index body) labels' frame' := by
  induction body generalizing outline labels frame index with
  | nil => exact ⟨frame, labels, rfl, List.prefix_refl _, hfollows⟩
  | cons statement rest ih =>
      obtain ⟨middle, labels', hstep, hlabels, hmiddle⟩ :=
        hfollows.step { method, statement := index } statement
      obtain ⟨frame', labels'', hrest, hlabels', hframe⟩ := ih hmiddle (index + 1)
      refine ⟨frame', labels'', ?_, hlabels.trans hlabels', hframe⟩
      rw [Frame.steps, hstep]
      exact hrest

end Follows

/-- Collecting a method that was not collected before succeeds, and adds its outline. -/
theorem collect_follows {context : Context}
    (hlayout : Layout base labels context.arena context.fields) (hnew : base owner = {})
    (method : Method) :
    ∃ frame labels', method.collect context = .ok frame ∧ labels <+: labels' ∧
      Follows base owner context method.outline labels' frame := by
  have hstart : Follows base owner context {} labels { context } := by
    refine ⟨?_, ?_, ?_, ?_⟩
    · rwa [← hnew, Function.update_eq_self]
    · intro name
      simp only [Std.ExtTreeMap.getElem?_empty]
      exact .none
    · intro point
      rw [Std.ExtTreeMap.getElem?_empty]
      rfl
    · intro point
      rw [Std.ExtTreeMap.getElem?_empty]
      rfl
  obtain ⟨frame, labels', hparams, hlabels, hframe⟩ := hstart.define_params method.params
  obtain ⟨frame', labels'', hsteps, hlabels', hframe'⟩ := hframe.steps method.name 0 method.body
  refine ⟨frame', labels'', ?_, hlabels.trans hlabels', hframe'⟩
  rw [Method.collect, hparams]
  exact hsteps

/-! ## Several methods -/

/-- The outlines of the methods that are collected. -/
def planOf (methods : List Method) (method : Method) : Outline :=
  if method ∈ methods then method.outline else {}

/-- A context has the facts of some methods and no others. -/
structure Collected (methods : List Method) (labels : List (Label Method)) (context : Context) :
    Prop where
  layout : Layout (planOf methods) labels context.arena context.fields
  tracked : ∀ {point : Point} {box : Handle}, context.tracked[point]? = some box →
    ∃ method ∈ methods, ∃ index, method.outline.tracked[point]? = some index ∧
      labels[box]? = some (.own method index)
  tracks : ∀ {method : Method} {point : Point} {index : Nat}, method ∈ methods →
    method.outline.tracked[point]? = some index →
    ∃ box : Handle, context.tracked[point]? = some box ∧
      labels[box]? = some (.own method index)
  sites : ∀ {point : Point} {kind : ReflectionKind}, context.sites[point]? = some kind ↔
    ∃ method ∈ methods, method.outline.sites[point]? = some kind

/-- One method more is collected. -/
theorem plan_concat (methods : List Method) (method : Method) :
    Function.update (planOf methods) method method.outline = planOf (methods ++ [method]) := by
  funext other
  by_cases heq : other = method
  · subst heq
    simp [planOf]
  · simp [planOf, heq]

namespace Collected

variable {methods : List Method} {labels : List (Label Method)} {context : Context}

/-- Before anything is collected there are no facts. -/
theorem empty : Collected [] [] Context.empty where
  layout := .empty fun _ => by simp [planOf]
  tracked htracked := by simp [Context.empty] at htracked
  tracks hmem := by cases hmem
  sites := by simp [Context.empty]

/-- Collecting a method with a new name succeeds, and adds the facts of that method. -/
theorem collect (hcollected : Collected methods labels context) {method : Method}
    (hnew : ∀ other ∈ methods, other.name ≠ method.name) :
    ∃ frame labels', method.collect context = .ok frame ∧
      Collected (methods ++ [method]) labels' frame.context := by
  have hbase : planOf methods method = {} := by
    rw [planOf, if_neg]
    exact fun hmem => hnew method hmem rfl
  obtain ⟨frame, labels', hcollect, hlabels, hfollows⟩ :=
    collect_follows hcollected.layout hbase method
  refine ⟨frame, labels', hcollect, ?_, ?_, ?_, ?_⟩
  · rw [← plan_concat]
    exact hfollows.layout
  · intro point box htracked
    have hpoint := hfollows.tracked point
    cases hindex : method.outline.tracked[point]? with
    | some index =>
        rw [hindex] at hpoint
        obtain ⟨box', hbox, hlabel⟩ := hpoint
        cases htracked.symm.trans hbox
        exact ⟨method, by simp, index, hindex, hlabel⟩
    | none =>
        rw [hindex] at hpoint
        obtain ⟨other, hmem, index, hother, hlabel⟩ :=
          hcollected.tracked (hpoint.symm.trans htracked)
        exact ⟨other, List.mem_append_left _ hmem, index, hother, get?_mono hlabels hlabel⟩
  · intro other point index hmem hindex
    have hpoint := hfollows.tracked point
    rcases List.mem_append.mp hmem with hmem | hmem
    · -- The points of another method have another method name.
      have hnone : method.outline.tracked[point]? = none := by
        rw [Option.eq_none_iff_forall_ne_some]
        intro index' hown
        apply hnew other hmem
        rw [← Method.method_of_outline_tracked hindex, Method.method_of_outline_tracked hown]
      rw [hnone] at hpoint
      obtain ⟨box, hbox, hlabel⟩ := hcollected.tracks hmem hindex
      exact ⟨box, hpoint.trans hbox, get?_mono hlabels hlabel⟩
    · rw [List.mem_singleton.mp hmem] at hindex ⊢
      rw [hindex] at hpoint
      exact hpoint
  · intro point kind
    rw [hfollows.sites, Option.or_eq_some_iff, hcollected.sites]
    constructor
    · rintro (hsite | ⟨_, other, hmem, hsite⟩)
      · exact ⟨method, by simp, hsite⟩
      · exact ⟨other, List.mem_append_left _ hmem, hsite⟩
    · rintro ⟨other, hmem, hsite⟩
      rcases List.mem_append.mp hmem with hmem | hmem
      · refine .inr ⟨?_, other, hmem, hsite⟩
        rw [Option.eq_none_iff_forall_ne_some]
        intro kind' hown
        obtain ⟨_, _, _, rfl, _⟩ := Method.outline_sites.mp hsite
        obtain ⟨_, _, _, hpoint, _⟩ := Method.outline_sites.mp hown
        exact hnew other hmem (congrArg Point.method hpoint)
      · rw [List.mem_singleton.mp hmem] at hsite
        exact .inl hsite

/-- Collecting methods with new names succeeds, and adds the facts of those methods. -/
theorem collect_all (hcollected : Collected methods labels context) {more : List Method}
    (hnames : ((methods ++ more).map (·.name)).Nodup) :
    ∃ context' labels', context.collectAll more = .ok context' ∧
      Collected (methods ++ more) labels' context' := by
  induction more generalizing methods labels context with
  | nil => exact ⟨context, labels, rfl, by rwa [List.append_nil]⟩
  | cons method rest ih =>
      have hnew : ∀ other ∈ methods, other.name ≠ method.name := by
        intro other hmem
        rw [List.map_append, List.nodup_append] at hnames
        exact hnames.2.2 _ (List.mem_map_of_mem hmem) _ (List.mem_map_of_mem (by simp))
      obtain ⟨frame, labels', hcollect, hframe⟩ := hcollected.collect hnew
      rw [List.append_cons] at hnames ⊢
      obtain ⟨context', labels'', hrest, hcontext'⟩ := ih hframe hnames
      refine ⟨context', labels'', ?_, hcontext'⟩
      rw [Context.collectAll, hcollect]
      exact hrest

end Collected

/-- Methods with different names can be collected. -/
theorem exists_collected {methods : List Method} (hnames : (methods.map (·.name)).Nodup) :
    ∃ context labels, Context.empty.collectAll methods = .ok context ∧
      Collected methods labels context :=
  Collected.empty.collect_all hnames

/-- No handle below a field or a tracked point dangles. -/
structure Context.Intact (context : Context) : Prop where
  fields : ∀ {name : String} {box : Handle}, context.fields.find? name = some box →
    context.arena.Intact box
  tracked : ∀ {point : Point} {box : Handle}, context.tracked[point]? = some box →
    context.arena.Intact box

/-- Collecting methods leaves an intact context. -/
theorem Collected.intact {methods : List Method} {labels : List (Label Method)} {context : Context}
    (hcollected : Collected methods labels context) : context.Intact where
  fields hfind := hcollected.layout.intact ((hcollected.layout.field _ _).mp hfind)
  tracked htracked := by
    obtain ⟨_, _, _, _, hlabel⟩ := hcollected.tracked htracked
    exact hcollected.layout.intact hlabel

end StringReach
