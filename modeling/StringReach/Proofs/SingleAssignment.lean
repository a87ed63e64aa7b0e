import Mathlib.Data.List.Forall2
import StringReach.Proofs.Outline

/-!
# Methods that define each local once

When a method defines each local at most once, a local keeps its box from its first mention on, and
the box is filled at most once. So the outline only grows along the statements (`Outline.Grows`),
and what a statement has put into it is still there in the end (`Method.outline_records`).
-/

namespace StringReach

/-- The local that a statement defines. -/
def Statement.dest? : Statement → Option String
  | .const dest _ => some dest
  | .assign dest _ => some dest
  | .concat dest _ _ => some dest
  | .append target _ dest => some (dest.getD target)
  | .phi dest _ => some dest
  | .param dest => some dest
  | .unknown dest => some dest
  | .storeField _ _ => none
  | .loadField dest _ => some dest
  | .invoke _ dest _ => dest
  | .reflect _ _ _ => none

/-- The locals that a statement reads, in order. Nothing is learnt from the arguments of a call. -/
def Statement.reads : Statement → List String
  | .const _ _ => []
  | .assign _ src => [src]
  | .concat _ left right => [left, right]
  | .append target value _ => [target, value]
  | .phi _ sources => sources
  | .param _ => []
  | .unknown _ => []
  | .storeField _ value => [value]
  | .loadField _ _ => []
  | .invoke _ _ _ => []
  | .reflect _ cls member => cls :: member.toList

/-- A method defines each local at most once, parameters included. -/
def Method.DefinesOnce (method : Method) : Prop :=
  (method.params ++ method.body.filterMap Statement.dest?).Nodup

instance (method : Method) : Decidable method.DefinesOnce :=
  inferInstanceAs (Decidable (List.Nodup _))

namespace Outline

/-! ## Outlines that grow -/

/-- An outline has grown: no local has moved to another box, and no content or store was lost. -/
structure Grows (before after : Outline) : Prop where
  locals : ∀ {name : String} {box : Nat}, before.locals[name]? = some box →
    after.locals[name]? = some box
  boxes : ∀ {index : Nat} {content : Content}, before.boxes[index]? = some content →
    content ≠ .term .pending → after.boxes[index]? = some content
  stores : ∀ {entry : String × Nat}, entry ∈ before.stores → entry ∈ after.stores

/-- The locals have boxes of their own, which are empty as long as the local is not defined. -/
structure Single (defined : List String) (outline : Outline) : Prop where
  bound : ∀ {name : String} {box : Nat}, outline.locals[name]? = some box →
    box < outline.boxes.length
  distinct : ∀ {name other : String} {box : Nat}, outline.locals[name]? = some box →
    outline.locals[other]? = some box → name = other
  pending : ∀ {name : String} {box : Nat}, name ∉ defined → outline.locals[name]? = some box →
    outline.boxes[box]? = some (.term .pending)

/-- More locals may count as defined. -/
theorem Single.mono {outline : Outline} {defined defined' : List String}
    (hsingle : Single defined outline) (hdefined : ∀ name ∈ defined, name ∈ defined') :
    Single defined' outline where
  bound := hsingle.bound
  distinct := hsingle.distinct
  pending hname := hsingle.pending fun hmem => hname (hdefined _ hmem)

/-- A box has a content, or the values of another box that has it. -/
def Holds (outline : Outline) (box : Nat) (content : Content) : Prop :=
  outline.boxes[box]? = some content ∨
    ∃ inner, outline.boxes[box]? = some (.term (.eq inner)) ∧ outline.boxes[inner]? = some content

/-- The box of a local has a content. -/
def Defines (outline : Outline) (name : String) (content : Content) : Prop :=
  ∃ box, outline.locals[name]? = some box ∧ outline.Holds box content

variable {before middle after outline : Outline} {defined : List String} {name : String}

/-- An outline extends itself. -/
theorem Grows.refl (outline : Outline) : Grows outline outline :=
  ⟨fun h => h, fun h _ => h, fun h => h⟩

/-- Extending an outline twice extends it. -/
theorem Grows.trans (hfirst : Grows before middle) (hsecond : Grows middle after) :
    Grows before after where
  locals hlocal := hsecond.locals (hfirst.locals hlocal)
  boxes hbox hcontent := hsecond.boxes (hfirst.boxes hbox hcontent) hcontent
  stores hstore := hsecond.stores (hfirst.stores hstore)

/-- A local keeps its content when the outline grows. -/
theorem Defines.mono {content : Content} (hdefines : before.Defines name content)
    (hgrows : Grows before after) (hcontent : content ≠ .term .pending) :
    after.Defines name content := by
  obtain ⟨box, hlocal, hbox | ⟨inner, hbox, hinner⟩⟩ := hdefines
  · exact ⟨box, hgrows.locals hlocal, .inl (hgrows.boxes hbox hcontent)⟩
  · exact ⟨box, hgrows.locals hlocal,
      .inr ⟨inner, hgrows.boxes hbox (by simp), hgrows.boxes hinner hcontent⟩⟩

/-! ## Locals that are mentioned for the first time -/

/-- A new local gets a new box. -/
def bindNew (outline : Outline) (name : String) (content : Content) : Outline :=
  { outline with
    boxes := outline.boxes ++ [content]
    locals := outline.locals.insert name outline.boxes.length }

/-- A new local makes an outline grow. -/
theorem grows_bind_new (hnone : outline.locals[name]? = none) (content : Content) :
    Grows outline (outline.bindNew name content) where
  locals {other box} hlocal := by
    rw [bindNew, get?_insert_eq, if_neg]
    · exact hlocal
    · rintro rfl
      cases hnone.symm.trans hlocal
  boxes {index found} hfound _ := by
    show (outline.boxes ++ [content])[index]? = some found
    grind
  stores hstore := hstore

/-- The box of a new local is its own. It is empty, or the local counts as defined from now on. -/
theorem Single.bind_new (hsingle : Single defined outline) {defined' : List String}
    {content : Content} (hdefined : ∀ other ∈ defined, other ∈ defined')
    (hcontent : name ∈ defined' ∨ content = .term .pending) :
    Single defined' (outline.bindNew name content) where
  bound {other box} hlocal := by
    rw [Outline.bindNew, get?_insert_eq] at hlocal
    show box < (outline.boxes ++ [content]).length
    rw [List.length_append, List.length_singleton]
    split at hlocal
    · cases hlocal
      omega
    · have := hsingle.bound hlocal
      omega
  distinct {a b box} ha hb := by
    rw [Outline.bindNew, get?_insert_eq] at ha hb
    split at ha <;> split at hb
    · rename_i ha' hb'
      exact ha'.symm.trans hb'
    · cases ha
      exact absurd (hsingle.bound hb) (Nat.lt_irrefl _)
    · cases hb
      exact absurd (hsingle.bound ha) (Nat.lt_irrefl _)
    · exact hsingle.distinct ha hb
  pending {other box} hother hlocal := by
    rw [Outline.bindNew, get?_insert_eq] at hlocal
    show (outline.boxes ++ [content])[box]? = _
    split at hlocal
    · rename_i heq
      subst heq
      cases hlocal
      rcases hcontent with hmem | rfl
      · exact absurd hmem hother
      · exact List.getElem?_concat_length
    · have hpending := hsingle.pending (fun hmem => hother (hdefined other hmem)) hlocal
      grind

/-! ## Reading -/

/-- A local that is read has the box that it is read from. -/
theorem read_local (outline : Outline) (name : String) :
    (outline.read name).2.locals[name]? = some (outline.read name).1 := by
  unfold read
  split
  · assumption
  · exact Std.ExtTreeMap.getElem?_insert_self

/-- Reading a local makes an outline grow. -/
theorem grows_read (outline : Outline) (name : String) : Grows outline (outline.read name).2 := by
  unfold read
  split
  · exact .refl outline
  · rename_i hnone
    exact grows_bind_new hnone _

/-- Reading a local does not define it. -/
theorem Single.read (hsingle : Single defined outline) (name : String) :
    Single defined (outline.read name).2 := by
  unfold Outline.read
  split
  · exact hsingle
  · exact hsingle.bind_new (fun _ hmem => hmem) (.inr rfl)

/-- Reading several locals makes an outline grow. -/
theorem grows_read_all (outline : Outline) (names : List String) :
    Grows outline (outline.readAll names).2 := by
  induction names generalizing outline with
  | nil => exact .refl outline
  | cons name rest ih => exact (outline.grows_read name).trans (ih _)

/-- Reading several locals does not define them. -/
theorem Single.read_all (hsingle : Single defined outline) (names : List String) :
    Single defined (outline.readAll names).2 := by
  induction names generalizing outline with
  | nil => exact hsingle
  | cons name rest ih => exact ih (hsingle.read name)

/-- Locals that are read have the boxes that they are read from. -/
theorem read_all_locals (outline : Outline) (names : List String) :
    List.Forall₂ (fun name box => (outline.readAll names).2.locals[name]? = some box) names
      (outline.readAll names).1 := by
  induction names generalizing outline with
  | nil => exact .nil
  | cons name rest ih =>
      exact .cons (((outline.read name).2.grows_read_all rest).locals (outline.read_local name))
        (ih _)

/-! ## Defining -/

/-- A local that was not mentioned before gets the new content. -/
theorem define_content_new (hnone : outline.locals[name]? = none) (content : Content) :
    outline.defineContent name content = outline.bindNew name content := by
  simp only [defineContent, define, alloc, hnone]
  rfl

/-- A local that was read before has its box filled. -/
theorem define_content_pending {box : Nat} (hlocal : outline.locals[name]? = some box)
    (hpending : outline.boxes[box]? = some (.term .pending)) (content : Content) :
    outline.defineContent name content =
      { outline with
        boxes := (outline.boxes ++ [content]).set box (.term (.eq outline.boxes.length)) } := by
  have hbox : (outline.boxes ++ [content])[box]? = some (.term .pending) := by grind
  simp only [defineContent, define, alloc, hlocal, hbox, if_true]

/-- Defining a local for the first time makes the outline grow and gives the local its content. -/
theorem Single.define_content (hsingle : Single defined outline) (hname : name ∉ defined)
    (content : Content) :
    Single (name :: defined) (outline.defineContent name content) ∧
      Grows outline (outline.defineContent name content) ∧
      (outline.defineContent name content).Defines name content := by
  cases hlocal : outline.locals[name]? with
  | none =>
      rw [define_content_new hlocal]
      refine ⟨hsingle.bind_new (fun _ => List.mem_cons_of_mem name) (.inl (by simp)),
        grows_bind_new hlocal content, outline.boxes.length, ?_, .inl ?_⟩
      · exact Std.ExtTreeMap.getElem?_insert_self
      · exact List.getElem?_concat_length
  | some box =>
      have hpending := hsingle.pending hname hlocal
      have hbox := hsingle.bound hlocal
      rw [define_content_pending hlocal hpending]
      have hkeep : ∀ {index : Nat} {found : Content}, index ≠ box →
          outline.boxes[index]? = some found →
          ((outline.boxes ++ [content]).set box (.term (.eq outline.boxes.length)))[index]? =
            some found := by
        grind
      refine ⟨⟨?_, hsingle.distinct, ?_⟩, ⟨fun h => h, ?_, fun h => h⟩, box, hlocal, .inr ?_⟩
      · intro other found hfound
        have := hsingle.bound hfound
        simp only [List.length_set, List.length_append, List.length_singleton]
        omega
      · intro other found hother hfound
        have hne : found ≠ box := by
          rintro rfl
          exact hother (hsingle.distinct hfound hlocal ▸ List.mem_cons_self)
        exact hkeep hne
          (hsingle.pending (fun hmem => hother (List.mem_cons_of_mem name hmem)) hfound)
      · intro index found hfound hcontent
        refine hkeep ?_ hfound
        rintro rfl
        exact hcontent (Option.some.inj (hfound.symm.trans hpending))
      · exact ⟨outline.boxes.length, by grind, by grind⟩

/-! ## Statements -/

/-- An outline has what a statement at a point says of its locals. An unknown value is not said
anything of. -/
def Records (outline : Outline) (site : Point) : Statement → Prop
  | .const dest value => outline.Defines dest (.term (.terminal value))
  | .assign dest src =>
      ∃ a : Nat, outline.locals[src]? = some a ∧ outline.Defines dest (.term (.eq a))
  | .concat dest left right =>
      ∃ a b : Nat, outline.locals[left]? = some a ∧ outline.locals[right]? = some b ∧
        outline.Defines dest (.term (.concat a b))
  | .append target value dest =>
      ∃ a b : Nat, outline.locals[target]? = some a ∧ outline.locals[value]? = some b ∧
        outline.Defines (dest.getD target) (.term (.concat a b))
  | .phi dest sources =>
      ∃ items : List Nat,
        List.Forall₂ (fun name box => outline.locals[name]? = some box) sources items ∧
        outline.Defines dest (.term (.union items))
  | .param dest => outline.Defines dest (.term .parameter)
  | .unknown _ => True
  | .storeField field value =>
      ∃ a : Nat, outline.locals[value]? = some a ∧ (field, a) ∈ outline.stores
  | .loadField dest field => outline.Defines dest (.load field)
  | .invoke callee dest _ => ∀ name ∈ dest, outline.Defines name (.term (.call callee))
  | .reflect _ cls member =>
      (∃ a : Nat, outline.locals[cls]? = some a ∧
        outline.tracked[site.operand Point.classSlot]? = some a) ∧
      ∀ name ∈ member, ∃ a : Nat, outline.locals[name]? = some a ∧
        outline.tracked[site.operand Point.memberSlot]? = some a

/-- What a statement says stays when the outline grows and the points of the statement stay. -/
theorem Records.mono {site : Point} {statement : Statement}
    (hrecords : before.Records site statement)
    (hgrows : Grows before after)
    (htracked : ∀ slot, after.tracked[site.operand slot]? = before.tracked[site.operand slot]?) :
    after.Records site statement := by
  cases statement with
  | const | param | loadField => exact Defines.mono hrecords hgrows (by simp)
  | assign =>
      obtain ⟨a, ha, hdest⟩ := hrecords
      exact ⟨a, hgrows.locals ha, hdest.mono hgrows (by simp)⟩
  | concat | append =>
      obtain ⟨a, b, ha, hb, hdest⟩ := hrecords
      exact ⟨a, b, hgrows.locals ha, hgrows.locals hb, hdest.mono hgrows (by simp)⟩
  | phi =>
      obtain ⟨items, hitems, hdest⟩ := hrecords
      exact ⟨items, hitems.imp fun _ _ => hgrows.locals, hdest.mono hgrows (by simp)⟩
  | unknown => trivial
  | storeField =>
      obtain ⟨a, ha, hstore⟩ := hrecords
      exact ⟨a, hgrows.locals ha, hgrows.stores hstore⟩
  | invoke => exact fun name hname => (hrecords name hname).mono hgrows (by simp)
  | reflect =>
      obtain ⟨⟨a, ha, hcls⟩, hmember⟩ := hrecords
      refine ⟨⟨a, hgrows.locals ha, (htracked _).trans hcls⟩, ?_⟩
      intro name hname
      obtain ⟨b, hb, htracked'⟩ := hmember name hname
      exact ⟨b, hgrows.locals hb, (htracked _).trans htracked'⟩

/-- Two locals are put together in a local that is defined for the first time. -/
theorem Single.define_concat (hsingle : Single defined outline) (hname : name ∉ defined)
    (left right : String) :
    ∃ a b after, after = ((outline.read left).2.read right).2.defineContent name
        (.term (.concat (outline.read left).1 ((outline.read left).2.read right).1)) ∧
      Single (name :: defined) after ∧ Grows outline after ∧
      after.locals[left]? = some a ∧ after.locals[right]? = some b ∧
      after.Defines name (.term (.concat a b)) := by
  have hleft := outline.grows_read left
  have hright := (outline.read left).2.grows_read right
  obtain ⟨hafter, hgrows, hdefines⟩ := ((hsingle.read left).read right).define_content hname
    (.term (.concat (outline.read left).1 ((outline.read left).2.read right).1))
  exact ⟨_, _, _, rfl, hafter, (hleft.trans hright).trans hgrows,
    hgrows.locals (hright.locals (outline.read_local left)),
    hgrows.locals ((outline.read left).2.read_local right), hdefines⟩

/-- Tracking an operand makes an outline grow. -/
theorem grows_track_operand (outline : Outline) (site : Point) (slot name : String) :
    Grows outline (outline.trackOperand site slot name) :=
  have hread := outline.grows_read name
  ⟨hread.locals, hread.boxes, hread.stores⟩

/-- Tracking an operand does not define it. -/
theorem Single.track_operand (hsingle : Single defined outline) (site : Point)
    (slot name : String) : Single defined (outline.trackOperand site slot name) :=
  have hread := hsingle.read name
  ⟨hread.bound, hread.distinct, hread.pending⟩

/-- A tracked operand is tracked at the box of its local. -/
theorem track_operand_local (outline : Outline) (site : Point) (slot name : String) :
    (outline.trackOperand site slot name).locals[name]? = some (outline.read name).1 ∧
      (outline.trackOperand site slot name).tracked[site.operand slot]? =
        some (outline.read name).1 :=
  ⟨outline.read_local name, Std.ExtTreeMap.getElem?_insert_self⟩

/-- A statement whose local is not defined yet makes the outline grow and is recorded in it. -/
theorem Single.step (hsingle : Single defined outline) (site : Point) {statement : Statement}
    (hdest : ∀ dest ∈ statement.dest?, dest ∉ defined) :
    Single (statement.dest?.toList ++ defined) (outline.step site statement) ∧
      Grows outline (outline.step site statement) ∧
      (outline.step site statement).Records site statement := by
  cases statement with
  | const dest value => exact hsingle.define_content (hdest dest rfl) _
  | param dest => exact hsingle.define_content (hdest dest rfl) _
  | loadField dest field => exact hsingle.define_content (hdest dest rfl) _
  | unknown dest =>
      obtain ⟨hafter, hgrows, _⟩ := hsingle.define_content (hdest dest rfl) (.term .top)
      exact ⟨hafter, hgrows, trivial⟩
  | assign dest src =>
      have hread := outline.grows_read src
      obtain ⟨hafter, hgrows, hdefines⟩ :=
        (hsingle.read src).define_content (hdest dest rfl) (.term (.eq (outline.read src).1))
      exact ⟨hafter, hread.trans hgrows, _, hgrows.locals (outline.read_local src), hdefines⟩
  | concat dest left right =>
      obtain ⟨a, b, _, rfl, hafter, hgrows, ha, hb, hdefines⟩ :=
        hsingle.define_concat (hdest dest rfl) left right
      exact ⟨hafter, hgrows, a, b, ha, hb, hdefines⟩
  | append target value dest =>
      obtain ⟨a, b, _, rfl, hafter, hgrows, ha, hb, hdefines⟩ :=
        hsingle.define_concat (hdest (dest.getD target) rfl) target value
      exact ⟨hafter, hgrows, a, b, ha, hb, hdefines⟩
  | phi dest sources =>
      have hread := outline.grows_read_all sources
      obtain ⟨hafter, hgrows, hdefines⟩ :=
        (hsingle.read_all sources).define_content (hdest dest rfl)
          (.term (.union (outline.readAll sources).1))
      exact ⟨hafter, hread.trans hgrows, _,
        (outline.read_all_locals sources).imp fun _ _ => hgrows.locals, hdefines⟩
  | storeField field value =>
      have hread := outline.grows_read value
      have hsingle' := hsingle.read value
      refine ⟨⟨hsingle'.bound, hsingle'.distinct, hsingle'.pending⟩,
        ⟨hread.locals, hread.boxes, ?_⟩, _, outline.read_local value, ?_⟩
      · exact fun hstore => List.mem_append_left _ (hread.stores hstore)
      · exact List.mem_append_right _ (List.mem_singleton.mpr rfl)
  | invoke callee dest args =>
      cases dest with
      | none => exact ⟨hsingle, .refl outline, fun name hname => by cases hname⟩
      | some dest =>
          obtain ⟨hafter, hgrows, hdefines⟩ :=
            hsingle.define_content (hdest dest rfl) (.term (.call callee))
          refine ⟨hafter, hgrows, ?_⟩
          rintro name ⟨⟩
          exact hdefines
  | reflect kind cls member =>
      have hsingle' := hsingle.track_operand site Point.classSlot cls
      have hgrows := outline.grows_track_operand site Point.classSlot cls
      obtain ⟨hlocal, htracked⟩ := outline.track_operand_local site Point.classSlot cls
      cases member with
      | none =>
          exact ⟨⟨hsingle'.bound, hsingle'.distinct, hsingle'.pending⟩,
            ⟨hgrows.locals, hgrows.boxes, hgrows.stores⟩, ⟨_, hlocal, htracked⟩,
            fun name hname => by cases hname⟩
      | some member =>
          have hsingle'' := hsingle'.track_operand site Point.memberSlot member
          have hgrows' := (outline.trackOperand site Point.classSlot cls).grows_track_operand site
            Point.memberSlot member
          have hboth := hgrows.trans hgrows'
          have hslots : site.operand Point.classSlot ≠ site.operand Point.memberSlot := by
            intro heq
            exact absurd (Option.some.inj (congrArg Point.slot heq)) (by decide)
          refine ⟨⟨hsingle''.bound, hsingle''.distinct, hsingle''.pending⟩,
            ⟨hboth.locals, hboth.boxes, hboth.stores⟩, ⟨_, hgrows'.locals hlocal, ?_⟩, ?_⟩
          · exact (track_operand_tracked_of_ne _ hslots member).trans htracked
          · rintro name ⟨⟩
            exact ⟨_, track_operand_local _ site Point.memberSlot member⟩

/-- The locals that the statements of a method define, with those of the first one in front. -/
theorem filter_map_dest_cons (statement : Statement) (rest : List Statement) :
    (statement :: rest).filterMap Statement.dest? =
      statement.dest?.toList ++ rest.filterMap Statement.dest? := by
  rw [List.filterMap_cons]
  cases statement.dest? <;> rfl

/-- The outline grows along statements that define new locals, each of them once. -/
theorem Single.steps (hsingle : Single defined outline) (method : String) (index : Nat)
    {body : List Statement} (hnodup : (body.filterMap Statement.dest?).Nodup)
    (hdest : ∀ dest ∈ body.filterMap Statement.dest?, dest ∉ defined) :
    Single (body.filterMap Statement.dest? ++ defined) (outline.steps method index body) ∧
      Grows outline (outline.steps method index body) := by
  induction body generalizing outline defined index with
  | nil => exact ⟨hsingle, .refl outline⟩
  | cons statement rest ih =>
      rw [filter_map_dest_cons] at hnodup hdest ⊢
      obtain ⟨_, hrest, hdisjoint⟩ := List.nodup_append.mp hnodup
      obtain ⟨hafter, hgrows, _⟩ := hsingle.step { method, statement := index } fun dest hmem =>
        hdest dest (List.mem_append_left _ (Option.mem_toList.mpr hmem))
      obtain ⟨hfinal, hgrows'⟩ := ih hafter (index + 1) hrest (by
        intro dest hmem
        rw [List.mem_append]
        rintro (hfirst | hdefined)
        · exact hdisjoint dest hfirst dest hmem rfl
        · exact hdest dest (List.mem_append_right _ hmem) hdefined)
      refine ⟨hfinal.mono ?_, hgrows.trans hgrows'⟩
      intro name hmem
      simp only [List.mem_append] at hmem ⊢
      rcases hmem with hmem | hmem | hmem
      · exact .inl (.inr hmem)
      · exact .inl (.inl hmem)
      · exact .inr hmem

/-- Parameters with different names make an outline grow and get their contents. -/
theorem Single.define_params (hsingle : Single defined outline) {params : List String}
    (hnodup : params.Nodup) (hparams : ∀ name ∈ params, name ∉ defined) :
    Single (params ++ defined) (outline.defineParams params) ∧
      Grows outline (outline.defineParams params) ∧
      ∀ name ∈ params, (outline.defineParams params).Defines name (.term .parameter) := by
  induction params generalizing outline defined with
  | nil => exact ⟨hsingle, .refl outline, fun name hmem => by cases hmem⟩
  | cons first rest ih =>
      obtain ⟨hfirst, hrest⟩ := List.nodup_cons.mp hnodup
      obtain ⟨hafter, hgrows, hdefines⟩ :=
        hsingle.define_content (hparams first (by simp)) (.term .parameter)
      obtain ⟨hfinal, hgrows', hothers⟩ := ih hafter hrest (by
        intro name hmem hdefined
        rcases List.mem_cons.mp hdefined with rfl | hdefined
        · exact hfirst hmem
        · exact hparams name (List.mem_cons_of_mem _ hmem) hdefined)
      refine ⟨hfinal.mono ?_, hgrows.trans hgrows', ?_⟩
      · intro name hmem
        simp only [List.mem_append, List.mem_cons] at hmem ⊢
        rcases hmem with hmem | rfl | hmem
        · exact .inl (.inr hmem)
        · exact .inl (.inl rfl)
        · exact .inr hmem
      · intro name hmem
        rcases List.mem_cons.mp hmem with rfl | hmem
        · exact hdefines.mono hgrows' (by simp)
        · exact hothers name hmem

/-- In the empty outline no local has a box. -/
theorem single_empty : Single [] {} := by
  refine ⟨?_, ?_, ?_⟩ <;> simp

end Outline

namespace Method

variable {method : Method}

/-- The outline of a method that defines each local once gives its parameters their contents. -/
theorem outline_params (honce : method.DefinesOnce) {name : String} (hname : name ∈ method.params) :
    method.outline.Defines name (.term .parameter) := by
  obtain ⟨hparams, hbody, hdisjoint⟩ := List.nodup_append.mp honce
  obtain ⟨hsingle, _, hdefines⟩ := Outline.single_empty.define_params hparams (by simp)
  obtain ⟨_, hgrows⟩ := hsingle.steps method.name 0 hbody (by
    intro dest hmem hdefined
    rw [List.append_nil] at hdefined
    exact hdisjoint dest hdefined dest hmem rfl)
  exact (hdefines name hname).mono hgrows (by simp)

/-- The outline of a method that defines each local once has what each of its statements says. -/
theorem outline_records (honce : method.DefinesOnce) {index : Nat} {statement : Statement}
    (hbody : method.body[index]? = some statement) :
    method.outline.Records { method := method.name, statement := index } statement := by
  have hdests : method.body.filterMap Statement.dest? =
      (method.body.take index).filterMap Statement.dest? ++ (statement.dest?.toList ++
        (method.body.drop (index + 1)).filterMap Statement.dest?) := by
    obtain ⟨hlt, rfl⟩ := List.getElem?_eq_some_iff.mp hbody
    rw [← Outline.filter_map_dest_cons, ← List.filterMap_append, List.getElem_cons_drop,
      List.take_append_drop]
  rw [DefinesOnce, hdests] at honce
  obtain ⟨hparams, hbody', hdisjoint⟩ := List.nodup_append.mp honce
  obtain ⟨hfirst, hlater, hdisjoint'⟩ := List.nodup_append.mp hbody'
  obtain ⟨_, hrest, hdisjoint''⟩ := List.nodup_append.mp hlater
  -- The locals that count as defined: none, the parameters, those up to the statement, its own.
  obtain ⟨hstart, _, _⟩ := Outline.single_empty.define_params hparams (by simp)
  obtain ⟨hbefore, _⟩ := hstart.steps method.name 0 hfirst (by grind)
  have hnew : ∀ dest ∈ statement.dest?.toList,
      dest ∉ (method.body.take index).filterMap Statement.dest? ++ (method.params ++ []) := by grind
  obtain ⟨hafter, _, hrecords⟩ := hbefore.step { method := method.name, statement := index }
    fun dest hmem => hnew dest (Option.mem_toList.mpr hmem)
  obtain ⟨_, hgrows⟩ := hafter.steps method.name (index + 1) hrest (by grind)
  rw [outline_eq hbody]
  refine hrecords.mono hgrows fun slot => ?_
  exact Outline.steps_tracked_of_lt _ (Nat.lt_succ_self index) _ _

end Method

end StringReach
