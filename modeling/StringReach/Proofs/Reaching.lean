import StringReach.Proofs.Layout
import StringReach.Proofs.Visits

/-!
# Definitions that reach a read

A method defines a local any number of times and may read it before its first definition. The
collector keeps one box for each local and knows a read without a definition only by the box that it
made empty for it. `Method.collect_links` says that this is enough: every read is linked to the
definition before it that is nearest, or, when there is none, to the first one after it, and no box
belongs to two locals.

The invariant `Frame.Linked` says how the boxes of a local are used. Reading, defining and the
accesses to fields each keep it.
-/

namespace StringReach

/-! ## The boxes of a local -/

/-- What the placeholder of a local holds: the values of the first definition, if there is one. -/
def filling : Option Handle → Term
  | some first => .eq first
  | none => .pending

/-- A box is the placeholder of a local or was made for one of its definitions. -/
def Belongs (placeholder : String → Option Handle) (made : String → List Handle) (name : String)
    (box : Handle) : Prop :=
  placeholder name = some box ∨ box ∈ made name

/-- How a frame uses the placeholders of the locals and the boxes that were made for their
definitions. A placeholder stays the box of its local until the second definition. -/
structure Frame.Linked (frame : Frame) (placeholder : String → Option Handle)
    (made : String → List Handle) : Prop where
  current : ∀ name, frame.find? name =
    if (made name).length ≤ 1 then (placeholder name).or (made name).getLast?
    else (made name).getLast?
  slot : ∀ {name box}, placeholder name = some box →
    frame.context.arena.get? box = some (filling (made name).head?)
  content : ∀ {name box}, box ∈ made name →
    ∃ term, frame.context.arena.get? box = some term ∧ term ≠ .pending
  apart : ∀ {name box}, placeholder name = some box → box ∉ made name
  distinct : ∀ {name other box}, Belongs placeholder made name box →
    Belongs placeholder made other box → name = other
  fields : ∀ {field box}, frame.context.fields.find? field = some box →
    box < frame.context.arena.size ∧ ∀ name, ¬ Belongs placeholder made name box

/-- A box with content that belongs neither to a local nor to a field. -/
structure Frame.Fresh (frame : Frame) (placeholder : String → Option Handle)
    (made : String → List Handle) (box : Handle) : Prop where
  content : ∃ term, frame.context.arena.get? box = some term ∧ term ≠ .pending
  free : ∀ name, ¬ Belongs placeholder made name box
  fields : ∀ field, frame.context.fields.find? field ≠ some box

/-- A local is read from the box of its last definition, or from a placeholder that has its values,
or from a placeholder when there is no definition yet. -/
inductive ReadFrom (arena : Arena) (placeholder : Option Handle) (made : List Handle)
    (box : Handle) : Prop where
  | last : made.getLast? = some box → ReadFrom arena placeholder made box
  | filled (first) : made = [first] → placeholder = some box →
      arena.get? box = some (.eq first) → ReadFrom arena placeholder made box
  | missing : made = [] → placeholder = some box → ReadFrom arena placeholder made box

/-- Placeholders that are made later do not replace others. -/
def Extends (placeholder placeholder' : String → Option Handle) : Prop :=
  ∀ name box, placeholder name = some box → placeholder' name = some box

/-- Reading a local makes no box with content. -/
theorem Frame.eq_of_read_eq {frame : Frame} {name : String} {box inner : Handle}
    (hget : (frame.read name).2.context.arena.get? box = some (.eq inner)) :
    frame.context.arena.get? box = some (.eq inner) := by
  unfold read at hget
  split at hget
  · exact hget
  · have hpush : (frame.context.arena.alloc .pending).2.get? box = some (.eq inner) := hget
    rw [Arena.get?_alloc] at hpush
    split at hpush
    · cases hpush
    · exact hpush

/-- A read stays what it was when placeholders are added and boxes with content are not. -/
theorem ReadFrom.mono {arena arena' : Arena} {placeholder placeholder' : Option Handle}
    {made : List Handle} {box : Handle} (hread : ReadFrom arena placeholder made box)
    (harena : ∀ inner, arena.get? box = some (.eq inner) → arena'.get? box = some (.eq inner))
    (hplaceholder : placeholder = some box → placeholder' = some box) :
    ReadFrom arena' placeholder' made box := by
  cases hread with
  | last hlast => exact .last hlast
  | filled first hmade hbox hget => exact .filled first hmade (hplaceholder hbox) (harena _ hget)
  | missing hmade hbox => exact .missing hmade (hplaceholder hbox)

/-- A local is read from one of its boxes. -/
theorem ReadFrom.belongs {arena : Arena} {placeholder : String → Option Handle}
    {made : String → List Handle} {name : String} {box : Handle}
    (hread : ReadFrom arena (placeholder name) (made name) box) :
    Belongs placeholder made name box := by
  cases hread with
  | last hlast => exact .inr (List.mem_of_getLast? hlast)
  | filled _ _ hbox | missing _ hbox => exact .inl hbox

namespace Frame.Linked

variable {frame : Frame} {placeholder : String → Option Handle}
  {made : String → List Handle} {name : String} {box : Handle}

/-- The boxes of the locals exist. -/
theorem lt_size (hlinked : frame.Linked placeholder made)
    (hbox : Belongs placeholder made name box) : box < frame.context.arena.size := by
  rcases hbox with hbox | hbox
  · exact Arena.lt_size_of_get? (hlinked.slot hbox)
  · obtain ⟨term, hget, _⟩ := hlinked.content hbox
    exact Arena.lt_size_of_get? hget

/-- The next free box belongs to no local. -/
theorem size_free (hlinked : frame.Linked placeholder made) (name : String) :
    ¬ Belongs placeholder made name frame.context.arena.size :=
  fun hbox => Nat.lt_irrefl _ (hlinked.lt_size hbox)

/-- A change to other boxes and to the fields keeps the links. -/
theorem keep (hlinked : frame.Linked placeholder made) {context : Context}
    (hget : ∀ name box, Belongs placeholder made name box →
      context.arena.get? box = frame.context.arena.get? box)
    (hfields : ∀ field box, context.fields.find? field = some box →
      box < context.arena.size ∧ ∀ name, ¬ Belongs placeholder made name box) :
    Frame.Linked { frame with context } placeholder made where
  current := hlinked.current
  slot hbox := (hget _ _ (.inl hbox)).trans (hlinked.slot hbox)
  content hbox := by
    rw [hget _ _ (.inr hbox)]
    exact hlinked.content hbox
  apart := hlinked.apart
  distinct := hlinked.distinct
  fields := hfields _ _

/-- A new box keeps the links. -/
theorem alloc (hlinked : frame.Linked placeholder made) (term : Term) :
    (frame.alloc term).2.Linked placeholder made := by
  refine hlinked.keep ?_ ?_
  · intro name box hbox
    show (frame.context.arena.alloc term).2.get? box = _
    rw [Arena.get?_alloc, if_neg]
    rintro rfl
    exact hlinked.size_free name hbox
  · intro field box hfield
    obtain ⟨hlt, hfree⟩ := hlinked.fields hfield
    refine ⟨?_, hfree⟩
    show box < (frame.context.arena.alloc term).2.size
    rw [Arena.size_alloc]
    exact Nat.lt_succ_of_lt hlt

/-- A local without a box has neither a placeholder nor a definition. -/
theorem of_find?_none (hlinked : frame.Linked placeholder made) (hfind : frame.find? name = none) :
    placeholder name = none ∧ made name = [] := by
  rw [hlinked.current] at hfind
  split at hfind
  · simpa using hfind
  · rename_i hlength
    rw [List.getLast?_eq_none_iff] at hfind
    simp [hfind] at hlength

/-- The box of a local is its placeholder or the box of its last definition. -/
theorem read_from (hlinked : frame.Linked placeholder made) (hfind : frame.find? name = some box) :
    ReadFrom frame.context.arena (placeholder name) (made name) box := by
  rw [hlinked.current] at hfind
  rcases hmade : made name with _ | ⟨first, _ | ⟨second, rest⟩⟩
  · simp only [hmade, List.length_nil, Nat.zero_le, if_true, List.getLast?_nil,
      Option.or_none] at hfind
    exact .missing rfl hfind
  · simp only [hmade, List.length_singleton, Nat.le_refl, if_true,
      List.getLast?_singleton] at hfind
    cases hplaceholder : placeholder name with
    | none =>
        rw [hplaceholder, Option.none_or] at hfind
        exact .last hfind
    | some old =>
        have hslot := hlinked.slot hplaceholder
        rw [hplaceholder, Option.some_or] at hfind
        cases hfind
        rw [hmade] at hslot
        exact .filled first rfl rfl hslot
  · rw [hmade, if_neg (by simp)] at hfind
    exact .last hfind

/-! ## Reading -/

/-- A box of the locals after one has got a placeholder. -/
theorem belongs_update {other : String} {fresh : Handle}
    (hbox : Belongs (Function.update placeholder name (some fresh)) made other box) :
    Belongs placeholder made other box ∨ other = name ∧ box = fresh := by
  rcases hbox with hbox | hbox
  · by_cases hother : other = name
    · subst hother
      rw [Function.update_self] at hbox
      cases hbox
      exact .inr ⟨rfl, rfl⟩
    · rw [Function.update_of_ne hother] at hbox
      exact .inl (.inl hbox)
  · exact .inl (.inr hbox)

/-- A local that is read before it has a box gets a placeholder. -/
theorem read_new (hlinked : frame.Linked placeholder made) (hfind : frame.find? name = none) :
    (frame.read name).2.Linked (Function.update placeholder name (some frame.context.arena.size))
      made := by
  obtain ⟨_, hmade⟩ := hlinked.of_find?_none hfind
  have hread : (frame.read name).2 = { (frame.alloc .pending).2 with
      locals := frame.locals.insert name frame.context.arena.size } := by
    rw [read, hfind]
    rfl
  have halloc := hlinked.alloc .pending
  rw [hread]
  refine ⟨?_, ?_, halloc.content, ?_, ?_, ?_⟩
  · intro other
    rw [find?, get?_insert_eq]
    by_cases hother : other = name
    · subst hother
      simp [hmade]
    · rw [if_neg (Ne.symm hother), Function.update_of_ne hother]
      exact hlinked.current other
  · intro other box hbox
    by_cases hother : other = name
    · subst hother
      rw [Function.update_self] at hbox
      cases hbox
      rw [hmade]
      show (frame.context.arena.alloc .pending).2.get? frame.context.arena.size = some .pending
      rw [Arena.get?_alloc, if_pos rfl]
    · rw [Function.update_of_ne hother] at hbox
      exact halloc.slot hbox
  · intro other box hbox
    by_cases hother : other = name
    · subst hother
      simp [hmade]
    · rw [Function.update_of_ne hother] at hbox
      exact hlinked.apart hbox
  · intro first second box hfirst hsecond
    rcases belongs_update hfirst with hold | ⟨rfl, rfl⟩
    · rcases belongs_update hsecond with hother | ⟨_, rfl⟩
      · exact hlinked.distinct hold hother
      · exact absurd hold (hlinked.size_free first)
    · rcases belongs_update hsecond with hother | ⟨rfl, _⟩
      · exact absurd hother (hlinked.size_free second)
      · rfl
  · intro field box hfield
    obtain ⟨hlt, hfree⟩ := halloc.fields hfield
    refine ⟨hlt, ?_⟩
    intro other hbox
    rcases belongs_update hbox with hbox | ⟨_, rfl⟩
    · exact hfree other hbox
    · exact Nat.lt_irrefl _ (hlinked.fields hfield).1

/-- A read links the local to its box and keeps the links of the others. -/
theorem read (hlinked : frame.Linked placeholder made) (name : String) :
    ∃ placeholder', Extends placeholder placeholder' ∧
      (frame.read name).2.Linked placeholder' made ∧
      ReadFrom frame.context.arena (placeholder' name) (made name) (frame.read name).1 := by
  cases hfind : frame.find? name with
  | some box =>
      have hread : frame.read name = (box, frame) := by rw [Frame.read, hfind]
      rw [hread]
      exact ⟨placeholder, fun _ _ hbox => hbox, hlinked, hlinked.read_from hfind⟩
  | none =>
      obtain ⟨hnone, hmade⟩ := hlinked.of_find?_none hfind
      refine ⟨_, ?_, hlinked.read_new hfind, .missing hmade ?_⟩
      · intro other box hbox
        rw [Function.update_of_ne]
        · exact hbox
        · rintro rfl
          cases hnone.symm.trans hbox
      · rw [Function.update_self, Frame.read, hfind]
        rfl

/-- Several reads link each local to its box. -/
theorem read_all (hlinked : frame.Linked placeholder made) (names : List String) :
    ∃ placeholder', Extends placeholder placeholder' ∧
      (frame.readAll names).2.Linked placeholder' made ∧
      List.Forall₂ (fun name box =>
        ReadFrom frame.context.arena (placeholder' name) (made name) box) names
        (frame.readAll names).1 := by
  induction names generalizing frame placeholder with
  | nil => exact ⟨placeholder, fun _ _ hbox => hbox, hlinked, .nil⟩
  | cons first rest ih =>
      obtain ⟨middle, hmiddle, hread, hfirst⟩ := hlinked.read first
      obtain ⟨last, hlast, hrest, hothers⟩ := ih hread
      refine ⟨last, fun name box hbox => hlast name box (hmiddle name box hbox), hrest,
        .cons (hfirst.mono (fun _ hget => hget) (hlast _ _)) (hothers.imp ?_)⟩
      -- The later reads are seen from the first arena: what has content by then had it before.
      intro name box hother
      exact hother.mono (fun _ => eq_of_read_eq) (fun hbox => hbox)

/-! ## Defining -/

variable {value : Handle}

/-- A box that was made for a definition, after one more was made. -/
theorem mem_update_concat {other : String}
    (hbox : box ∈ Function.update made name (made name ++ [value]) other) :
    box ∈ made other ∨ other = name ∧ box = value := by
  by_cases hother : other = name
  · subst hother
    rw [Function.update_self, List.mem_append, List.mem_singleton] at hbox
    exact hbox.imp_right fun heq => ⟨rfl, heq⟩
  · rw [Function.update_of_ne hother] at hbox
    exact .inl hbox

/-- A box of the locals, after one more was made for a definition. -/
theorem belongs_concat {other : String}
    (hbox : Belongs placeholder (Function.update made name (made name ++ [value])) other box) :
    Belongs placeholder made other box ∨ other = name ∧ box = value := by
  rcases hbox with hbox | hbox
  · exact .inl (.inl hbox)
  · exact (mem_update_concat hbox).imp_left .inr

/-- A definition with a box of its own changes its local and the placeholder of the local only. -/
theorem define_of_frame (hlinked : frame.Linked placeholder made)
    (hfresh : frame.Fresh placeholder made value) {after : Frame}
    (hfields : after.context.fields = frame.context.fields)
    (hsize : after.context.arena.size = frame.context.arena.size)
    (hget : ∀ box, placeholder name ≠ some box →
      after.context.arena.get? box = frame.context.arena.get? box)
    (hslot : ∀ box, placeholder name = some box →
      after.context.arena.get? box = some (filling (made name ++ [value]).head?))
    (hothers : ∀ other, other ≠ name → after.find? other = frame.find? other)
    (hcurrent : after.find? name =
      if made name = [] then (placeholder name).or (some value) else some value) :
    after.Linked placeholder (Function.update made name (made name ++ [value])) where
  current other := by
    by_cases hother : other = name
    · subst hother
      rw [hcurrent, Function.update_self, List.getLast?_concat]
      cases made other with
      | nil => rfl
      | cons first rest => simp
    · rw [hothers other hother, hlinked.current, Function.update_of_ne hother]
  slot {other box} hbox := by
    by_cases hother : other = name
    · subst hother
      rw [hslot box hbox, Function.update_self]
    · have hne : placeholder name ≠ some box :=
        fun hname => hother (hlinked.distinct (.inl hbox) (.inl hname))
      rw [hget box hne, hlinked.slot hbox, Function.update_of_ne hother]
  content {other box} hbox := by
    rcases mem_update_concat hbox with hold | ⟨_, rfl⟩
    · have hne : placeholder name ≠ some box := by
        intro hname
        obtain rfl := hlinked.distinct (.inl hname) (.inr hold)
        exact hlinked.apart hname hold
      rw [hget box hne]
      exact hlinked.content hold
    · rw [hget box fun hname => hfresh.free name (.inl hname)]
      exact hfresh.content
  apart {other box} hbox hmem := by
    rcases mem_update_concat hmem with hold | ⟨_, rfl⟩
    · exact hlinked.apart hbox hold
    · exact hfresh.free other (.inl hbox)
  distinct {first second box} hfirst hsecond := by
    rcases belongs_concat hfirst with hold | ⟨rfl, rfl⟩
    · rcases belongs_concat hsecond with hother | ⟨_, rfl⟩
      · exact hlinked.distinct hold hother
      · exact absurd hold (hfresh.free first)
    · rcases belongs_concat hsecond with hother | ⟨rfl, _⟩
      · exact absurd hother (hfresh.free second)
      · rfl
  fields {field box} hbox := by
    rw [hfields] at hbox
    obtain ⟨hlt, hnone⟩ := hlinked.fields hbox
    refine ⟨by rwa [hsize], ?_⟩
    intro other hother
    rcases belongs_concat hother with hold | ⟨_, rfl⟩
    · exact hnone other hold
    · exact hfresh.fields field hbox

/-- A local that is defined without an empty placeholder takes the new box. -/
theorem rebind (hlinked : frame.Linked placeholder made)
    (hfresh : frame.Fresh placeholder made value)
    (hopen : made name = [] → placeholder name = none) :
    Frame.Linked { frame with locals := frame.locals.insert name value } placeholder
      (Function.update made name (made name ++ [value])) := by
  refine hlinked.define_of_frame hfresh rfl rfl (fun _ _ => rfl) ?_ ?_ ?_
  · intro box hbox
    have hmade : made name ≠ [] := fun hmade => by simp [hopen hmade] at hbox
    rw [List.head?_append_of_ne_nil _ hmade]
    exact hlinked.slot hbox
  · intro other hother
    rw [find?, get?_insert_eq, if_neg (Ne.symm hother)]
    rfl
  · rw [find?, get?_insert_eq, if_pos rfl]
    split
    · rename_i hmade
      rw [hopen hmade, Option.none_or]
    · rfl

/-- The empty placeholder of a local is filled by the first definition. -/
theorem fill (hlinked : frame.Linked placeholder made)
    (hfresh : frame.Fresh placeholder made value) (hfind : frame.find? name = some box)
    (hbox : placeholder name = some box) (hmade : made name = []) :
    Frame.Linked { frame with
      context := { frame.context with arena := frame.context.arena.set box (.eq value) } }
      placeholder (Function.update made name (made name ++ [value])) := by
  refine hlinked.define_of_frame hfresh rfl (Arena.size_set _ _ _) ?_ ?_ (fun _ _ => rfl) ?_
  · intro other hother
    refine Arena.get?_set_of_ne _ ?_ _
    rintro rfl
    exact hother hbox
  · intro other hother
    cases hbox.symm.trans hother
    rw [hmade]
    exact Arena.get?_set_self (hlinked.lt_size (.inl hbox)) _
  · rw [if_pos hmade, hbox, Option.some_or]
    exact hfind

/-- Defining a local as a box of its own adds a definition. -/
theorem define (hlinked : frame.Linked placeholder made)
    (hfresh : frame.Fresh placeholder made value) (name : String) :
    ∃ after, frame.define name value = .ok after ∧
      after.Linked placeholder (Function.update made name (made name ++ [value])) := by
  obtain ⟨term, hvalue, _⟩ := hfresh.content
  cases hfind : frame.find? name with
  | none =>
      refine ⟨_, define_new hfind value, hlinked.rebind hfresh ?_⟩
      exact fun _ => (hlinked.of_find?_none hfind).1
  | some box =>
      cases hlinked.read_from hfind with
      | missing hmade hbox =>
          -- Only a placeholder without a definition is empty, so only here a box is filled.
          have hslot := hlinked.slot hbox
          rw [hmade] at hslot
          exact ⟨_, define_pending hfind hslot hvalue, hlinked.fill hfresh hfind hbox hmade⟩
      | filled first hmade _ hget =>
          refine ⟨_, define_rebind hfind hget nofun value, hlinked.rebind hfresh ?_⟩
          simp [hmade]
      | last hlast =>
          obtain ⟨old, hget, hold⟩ := hlinked.content (List.mem_of_getLast? hlast)
          refine ⟨_, define_rebind hfind hget hold value, hlinked.rebind hfresh ?_⟩
          intro hmade
          simp [hmade] at hlast

/-- Defining a local as a new term adds a definition with a new box. -/
theorem define_term (hlinked : frame.Linked placeholder made) {term : Term}
    (hterm : term ≠ .pending) (name : String) :
    ∃ after, (frame.alloc term).2.define name frame.context.arena.size = .ok after ∧
      after.Linked placeholder
        (Function.update made name (made name ++ [frame.context.arena.size])) := by
  refine (hlinked.alloc term).define ⟨⟨term, ?_, hterm⟩, hlinked.size_free, ?_⟩ name
  · show (frame.context.arena.alloc term).2.get? frame.context.arena.size = some term
    rw [Arena.get?_alloc, if_pos rfl]
  · intro field hfield
    exact Nat.lt_irrefl _ (hlinked.fields hfield).1

/-! ## Fields -/

/-- A new content for a box that belongs to no local keeps the links. -/
theorem set (hlinked : frame.Linked placeholder made)
    (hfree : ∀ name, ¬ Belongs placeholder made name box) (term : Term) :
    Frame.Linked { frame with
      context := { frame.context with arena := frame.context.arena.set box term } }
      placeholder made := by
  refine hlinked.keep ?_ ?_
  · intro name other hother
    refine Arena.get?_set_of_ne _ ?_ term
    rintro rfl
    exact hfree name hother
  · intro field other hfield
    rw [Arena.size_set]
    exact hlinked.fields hfield

/-- A new box for a field keeps the links. -/
theorem alloc_field (hlinked : frame.Linked placeholder made) (field : String) (term : Term) :
    Frame.Linked { frame with context := { frame.context with
      fields := { boxes := frame.context.fields.boxes.insert field frame.context.arena.size }
      arena := (frame.context.arena.alloc term).2 } } placeholder made := by
  have halloc := hlinked.alloc term
  refine halloc.keep (fun _ _ _ => rfl) ?_
  intro other box hfind
  rw [Fields.find?_insert] at hfind
  split at hfind
  · cases hfind
    refine ⟨?_, hlinked.size_free⟩
    rw [Arena.size_alloc]
    exact Nat.lt_succ_self _
  · exact halloc.fields hfind

/-- Loading a field keeps the links. -/
theorem load (hlinked : frame.Linked placeholder made) (field : String) :
    Frame.Linked { frame with context := { frame.context with
      fields := (frame.context.fields.load frame.context.arena field).2.1
      arena := (frame.context.fields.load frame.context.arena field).2.2 } } placeholder made := by
  rw [Fields.load]
  split
  · exact hlinked
  · exact hlinked.alloc_field field .pending

/-- Adding an alternative to a box that belongs to no local keeps the links. -/
theorem grow_union (hlinked : frame.Linked placeholder made)
    (hfree : ∀ name, ¬ Belongs placeholder made name box) {old term : Term}
    (hbox : frame.context.arena.get? box = some old)
    (hvalue : frame.context.arena.get? value = some term) :
    ∃ arena, frame.context.arena.growUnion box value = .ok arena ∧
      Frame.Linked { frame with context := { frame.context with arena } } placeholder made := by
  by_cases hunion : ∃ items, old = .union items
  · obtain ⟨items, rfl⟩ := hunion
    refine ⟨_, Arena.grow_union_union hvalue hbox, ?_⟩
    split
    · exact hlinked
    · exact hlinked.set hfree _
  · refine ⟨_, Arena.grow_union_of_ne_union hvalue hbox (fun items heq => hunion ⟨items, heq⟩), ?_⟩
    exact (hlinked.alloc old).set hfree _

/-- Storing to a field keeps the links. -/
theorem store (hlinked : frame.Linked placeholder made) {term : Term}
    (hvalue : frame.context.arena.get? value = some term) (field : String) :
    ∃ box fields arena,
      frame.context.fields.store frame.context.arena field value = .ok (box, fields, arena) ∧
      Frame.Linked { frame with context := { frame.context with fields, arena } } placeholder
        made := by
  cases hfind : frame.context.fields.find? field with
  | none => exact ⟨_, _, _, Fields.store_new hfind _ value, hlinked.alloc_field field (.eq value)⟩
  | some box =>
      obtain ⟨hlt, hfree⟩ := hlinked.fields hfind
      obtain ⟨old, hold⟩ : ∃ old, frame.context.arena.get? box = some old :=
        ⟨_, Array.getElem?_eq_getElem hlt⟩
      by_cases hpending : old = .pending
      · subst hpending
        exact ⟨_, _, _, Fields.store_pending hfind hold hvalue, hlinked.set hfree (.eq value)⟩
      · obtain ⟨arena, hgrow, hafter⟩ := hlinked.grow_union hfree hold hvalue
        exact ⟨_, _, _, Fields.store_grow hfind hold hpending hgrow, hafter⟩

/-! ## One statement -/

/-- The term of a definition has content, and finding it keeps the links. -/
theorem term_of (hlinked : frame.Linked placeholder made) (statement : Statement)
    (boxes : List Handle) :
    (frame.termOf statement boxes).1 ≠ .pending ∧
      (frame.termOf statement boxes).2.Linked placeholder made := by
  unfold termOf
  split <;> first | exact ⟨nofun, hlinked⟩ | exact ⟨nofun, hlinked.load _⟩

/-- Tracking operands keeps the links. -/
theorem track_all (hlinked : frame.Linked placeholder made) (site : Point)
    (operands : List (String × Handle)) :
    Frame.Linked { frame with context := frame.context.trackAll site operands } placeholder
      made := by
  induction operands generalizing frame with
  | nil => exact hlinked
  | cons operand rest ih =>
      have htrack : Frame.Linked { frame with
          context := frame.context.track (site.operand operand.1) operand.2 } placeholder made :=
        hlinked.keep (fun _ _ _ => rfl) fun _ _ => hlinked.fields
      exact ih htrack

/-- A statement that defines no local keeps the links. -/
theorem effect (hlinked : frame.Linked placeholder made) (site : Point) (statement : Statement)
    {boxes : List Handle} (hboxes : ∀ box ∈ boxes, ∃ name, Belongs placeholder made name box) :
    ∃ after, frame.effect site statement boxes = .ok after ∧ after.Linked placeholder made := by
  unfold Frame.effect
  split
  · rename_i field _ value
    obtain ⟨name, hname⟩ := hboxes value (by simp)
    obtain ⟨term, hvalue⟩ : ∃ term, frame.context.arena.get? value = some term :=
      ⟨_, Array.getElem?_eq_getElem (hlinked.lt_size hname)⟩
    obtain ⟨box, fields, arena, hstore, hafter⟩ := hlinked.store hvalue field
    refine ⟨_, ?_, hafter⟩
    rw [hstore]
    rfl
  · have htrack := hlinked.track_all site ([Point.classSlot, Point.memberSlot].zip boxes)
    exact ⟨_, rfl, htrack.keep (fun _ _ _ => rfl) fun _ _ => htrack.fields⟩
  · exact ⟨frame, rfl, hlinked⟩

/-- A statement links its reads and adds its definition. -/
theorem visit {earlier : List Visit} (hlinked : frame.Linked placeholder (definitions earlier))
    (site : Point) (statement : Statement) :
    ∃ visit after placeholder', frame.visit site statement = .ok (visit, after) ∧
      Extends placeholder placeholder' ∧
      after.Linked placeholder' (definitions (earlier ++ [visit])) ∧
      ∀ name box, (name, box) ∈ visit.reads →
        ReadFrom visit.arena (placeholder' name) (definitions earlier name) box := by
  obtain ⟨placeholder', hextends, hreading, hreads⟩ := hlinked.read_all statement.reads
  rcases hread : frame.readAll statement.reads with ⟨boxes, reading⟩
  rw [hread] at hreading hreads
  have hzip : ∀ name box, (name, box) ∈ statement.reads.zip boxes →
      ReadFrom frame.context.arena (placeholder' name) (definitions earlier name) box :=
    fun name box hmem => List.forall₂_zip hreads hmem
  cases hdest : statement.dest? with
  | none =>
      have hboxes : ∀ box ∈ boxes, ∃ name, Belongs placeholder' (definitions earlier) name box := by
        intro box hmem
        obtain ⟨name, _, hfrom⟩ := exists_partner hreads.flip hmem
        exact ⟨name, hfrom.belongs⟩
      obtain ⟨after, heffect, hafter⟩ := hreading.effect site statement hboxes
      refine ⟨⟨frame.context.arena, statement.reads.zip boxes, none⟩, after, placeholder', ?_,
        hextends, ?_, hzip⟩
      · simp only [Frame.visit, hread, hdest, heffect]
        rfl
      · rwa [definitions_concat_none rfl]
  | some dest =>
      rcases hfound : reading.termOf statement boxes with ⟨term, found⟩
      obtain ⟨hterm, hframe⟩ := hreading.term_of statement boxes
      rw [hfound] at hterm hframe
      obtain ⟨after, hdefine, hafter⟩ := hframe.define_term hterm dest
      refine ⟨⟨frame.context.arena, statement.reads.zip boxes,
        some (dest, found.context.arena.size)⟩, after, placeholder', ?_, hextends, ?_, hzip⟩
      · simp only [Frame.visit, hread, hdest, hfound]
        exact congrArg (fun result => result >>= _) hdefine
      · rwa [definitions_concat_some rfl]

/-! ## All statements -/

/-- Statements link all their reads and add their definitions. -/
theorem visits {earlier : List Visit} (hlinked : frame.Linked placeholder (definitions earlier))
    (script : List (Point × Statement)) :
    ∃ visits after placeholder', frame.visits script = .ok (visits, after) ∧
      Extends placeholder placeholder' ∧
      after.Linked placeholder' (definitions (earlier ++ visits)) ∧
      ∀ first visit later, visits = first ++ visit :: later →
        ∀ name box, (name, box) ∈ visit.reads →
          ReadFrom visit.arena (placeholder' name) (definitions (earlier ++ first) name) box := by
  induction script generalizing frame placeholder earlier with
  | nil =>
      refine ⟨[], frame, placeholder, rfl, fun _ _ hbox => hbox, ?_, by simp⟩
      rwa [List.append_nil]
  | cons entry rest ih =>
      -- The reads of the first statement are kept, since placeholders are only added.
      obtain ⟨visit, middle, between, hvisit, hbetween, hmiddle, hreads⟩ :=
        hlinked.visit entry.1 entry.2
      obtain ⟨visits, after, placeholder', hvisits, hextends, hafter, hothers⟩ := ih hmiddle
      refine ⟨visit :: visits, after, placeholder', ?_,
        fun name box hbox => hextends name box (hbetween name box hbox), ?_, ?_⟩
      · rw [Frame.visits, hvisit]
        show (middle.visits rest >>= _) = _
        rw [hvisits]
        rfl
      · rwa [List.append_cons]
      · intro first other later hsplit name box hmem
        rcases List.append_eq_cons_iff.mp hsplit.symm with ⟨rfl, hcons⟩ | ⟨before, rfl, htail⟩
        · cases hcons
          rw [List.append_nil]
          exact (hreads name box hmem).mono (fun _ hget => hget) (hextends name box)
        · rw [List.append_cons]
          exact hothers before other later htail name box hmem

end Frame.Linked

/-! ## A whole method -/

/-- A box from which a local is read is linked to the definition that reaches the read. This is the
last definition before it; its box is read, or the placeholder of the local, which has its values.
Without a definition before it the placeholder is read, and it has the values of the first
definition from there on, if there is one. -/
def ReachedBy (reading final : Arena) (placeholder : Option Handle) (before after : List Handle)
    (box : Handle) : Prop :=
  match before.getLast? with
  | some last => box = last ∨ placeholder = some box ∧
      reading.get? box = some (.eq last) ∧ final.get? box = some (.eq last)
  | none => placeholder = some box ∧ final.get? box = some (filling after.head?)

/-- A local is read from a box, or defined with it, or has it in the end. -/
def Mentions (visits : List Visit) (frame : Frame) (name : String) (box : Handle) : Prop :=
  frame.find? name = some box ∨
    ∃ visit ∈ visits, (name, box) ∈ visit.reads ∨ visit.made = some (name, box)

/-- Collecting a method in a context gives a frame, with a record of the boxes that were read and
made. Every read of a local is linked to the definition that reaches it. A local has at most one
placeholder, which is no box of a definition, and no box is used for two locals. -/
structure Method.Links (method : Method) (context : Context) (frame : Frame) (visits : List Visit)
    (placeholder : String → Option Handle) : Prop where
  collects : method.collect context = .ok frame
  records : method.visits context = .ok (visits, frame)
  reached : ∀ earlier visit later, visits = earlier ++ visit :: later →
    ∀ name box, (name, box) ∈ visit.reads →
      ReachedBy visit.arena frame.context.arena (placeholder name) (definitions earlier name)
        (definitions (visit :: later) name) box
  apart : ∀ name box, placeholder name = some box → box ∉ definitions visits name
  distinct : ∀ name other box, Mentions visits frame name box → Mentions visits frame other box →
    name = other

/-- A frame without locals has nothing to link. -/
theorem Frame.Linked.empty {context : Context}
    (hfields : ∀ field box, context.fields.find? field = some box → box < context.arena.size) :
    Frame.Linked { context } (fun _ => none) (definitions []) := by
  refine ⟨?_, nofun, nofun, nofun, ?_, ?_⟩
  · intro name
    simp [Frame.find?, definitions]
  · intro name other box hbox
    simp [Belongs, definitions] at hbox
  · intro field box hfield
    exact ⟨hfields field box hfield, by simp [Belongs, definitions]⟩

/-- Definitions that follow do not change what a read is linked to. -/
theorem Frame.Linked.reached_by {frame : Frame} {placeholder : String → Option Handle}
    {made : String → List Handle} (hlinked : frame.Linked placeholder made) {name : String}
    {before after : List Handle} (hmade : made name = before ++ after) {reading : Arena}
    {box : Handle} (hread : ReadFrom reading (placeholder name) before box) :
    ReachedBy reading frame.context.arena (placeholder name) before after box := by
  rw [ReachedBy]
  cases hread with
  | last hlast =>
      rw [hlast]
      exact .inl rfl
  | filled first hbefore hbox hget =>
      have hslot := hlinked.slot hbox
      rw [hmade, hbefore] at hslot
      rw [hbefore]
      exact .inr ⟨hbox, hget, hslot⟩
  | missing hbefore hbox =>
      have hslot := hlinked.slot hbox
      rw [hmade, hbefore, List.nil_append] at hslot
      rw [hbefore]
      exact ⟨hbox, hslot⟩

/-- When the boxes of the fields exist, a method can be collected, whatever it does, and its reads
are linked to the definitions that reach them. -/
theorem Method.collect_links {context : Context}
    (hfields : ∀ field box, context.fields.find? field = some box → box < context.arena.size)
    (method : Method) :
    ∃ frame visits placeholder, method.Links context frame visits placeholder := by
  obtain ⟨visits, frame, placeholder, hvisits, _, hlinked, hreads⟩ :=
    (Frame.Linked.empty hfields).visits method.script
  simp only [List.nil_append] at hlinked hreads
  have hbelongs : ∀ name box, Mentions visits frame name box →
      Belongs placeholder (definitions visits) name box := by
    intro name box hmentions
    rcases hmentions with hfind | ⟨visit, hvisit, hread | hmade⟩
    · exact (hlinked.read_from hfind).belongs
    · obtain ⟨earlier, later, hsplit⟩ := List.append_of_mem hvisit
      rcases (hreads earlier visit later hsplit name box hread).belongs with hbox | hbox
      · exact .inl hbox
      · refine .inr ?_
        rw [hsplit, definitions_append]
        exact List.mem_append_left _ hbox
    · exact .inr (mem_definitions.mpr ⟨visit, hvisit, hmade⟩)
  refine ⟨frame, visits, placeholder, collect_of_visits hvisits, hvisits, ?_,
    fun _ _ => hlinked.apart, ?_⟩
  · intro earlier visit later hsplit name box hmem
    refine hlinked.reached_by ?_ (hreads earlier visit later hsplit name box hmem)
    rw [hsplit, definitions_append]
  · intro name other box hname hother
    exact hlinked.distinct (hbelongs name box hname) (hbelongs other box hother)

/-- A method that reads locals before their first definition and defines others again. -/
def tangled : Method where
  name := "Main.tangle"
  params := ["base", "base"]
  body := [
    .append "text" "base" none,
    .phi "loop" ["loop", "text", "late"],
    .storeField "Main.path" "text",
    .const "text" "again",
    .loadField "late" "Main.path",
    .concat "late" "text" "never"]

/-- A context with a cycle, in which the box of a field is shared by other terms. -/
def tangledContext : Context where
  arena := { slots := #[.eq 1, .union [0, 1]] }
  fields := { boxes := (∅ : Std.ExtTreeMap String Handle).insert "Main.path" 1 }

/-- The method is collected in a context with a cycle, and each read is linked to what reaches it.
-/
theorem Method.collect_links_tangled :
    (∀ field box, tangledContext.fields.find? field = some box →
      box < tangledContext.arena.size) ∧
    ∃ frame visits placeholder, tangled.Links tangledContext frame visits placeholder := by
  have hfields : ∀ field box, tangledContext.fields.find? field = some box →
      box < tangledContext.arena.size := by
    intro field box hfield
    rw [Fields.find?, tangledContext, get?_insert_eq] at hfield
    split at hfield
    · cases hfield
      decide
    · simp at hfield
  exact ⟨hfields, Method.collect_links hfields tangled⟩

end StringReach
