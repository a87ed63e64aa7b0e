import Mathlib.Data.List.Forall2
import Mathlib.Logic.Function.Basic
import StringReach.Proofs.Graph
import StringReach.Proofs.Outline

/-!
# How outlines lie in an arena

When methods are collected, each box of the arena gets a label: it is a box of the outline of some
method, or the box of a field, or the place to which the first value of a field was moved when a
second one came. `Layout` says that every box holds what its label promises. Each change that
collecting makes to an arena is a lemma: a new box (`Layout.push`), an empty box of a method that is
filled (`Layout.refine`), and a store to a field (`Layout.store`).
-/

namespace StringReach

/-- What a box of an arena stands for. The owners are the methods, or their numbers. -/
inductive Label (ι : Type) where
  /-- A box of the outline of a method. -/
  | own (owner : ι) (index : Nat)
  /-- The box of a field. -/
  | field (name : String)
  /-- The first value of a field that has several. -/
  | moved (field : String)
deriving DecidableEq

variable {ι : Type} {base plan plan' : ι → Outline} {labels labels' : List (Label ι)}
  {arena arena' : Arena} {fields fields' : Fields} {owner : ι} {outline : Outline}

/-- A term shows the content of a box of a method when it has the same shape and the boxes that it
mentions have the right labels. -/
inductive Shows (labels : List (Label ι)) (owner : ι) : Content → Term → Prop where
  | leaf (term) : term.isCompound = false → Shows labels owner (.term term) term
  | union (items boxes) :
      List.Forall₂ (fun item box => labels[box]? = some (.own owner item)) items boxes →
      Shows labels owner (.term (.union items)) (.union boxes)
  | concat (left right a b) : labels[a]? = some (.own owner left) →
      labels[b]? = some (.own owner right) →
      Shows labels owner (.term (.concat left right)) (.concat a b)
  | eq (inner a) : labels[a]? = some (.own owner inner) →
      Shows labels owner (.term (.eq inner)) (.eq a)
  | load (name a) : labels[a]? = some (.field name) → Shows labels owner (.load name) (.eq a)

/-- A value that some method stores to a field. -/
def Stored (plan : ι → Outline) (name : String) (label : Label ι) : Prop :=
  ∃ owner index, label = .own owner index ∧ (name, index) ∈ (plan owner).stores

/-- A box holds what its label promises. The box of a field holds what is stored to the field, in
one of three forms. -/
inductive Placed (plan : ι → Outline) (labels : List (Label ι)) (arena : Arena) (h : Handle) :
    Label ι → Prop where
  | own (owner index content term) : (plan owner).boxes[index]? = some content →
      arena.get? h = some term → Shows labels owner content term →
      Placed plan labels arena h (.own owner index)
  | unset (name) : arena.get? h = some .pending → (∀ label, ¬ Stored plan name label) →
      Placed plan labels arena h (.field name)
  | single (name value label) : arena.get? h = some (.eq value) → labels[value]? = some label →
      (∀ other, Stored plan name other ↔ other = label) → Placed plan labels arena h (.field name)
  | several (name moved first rest) : arena.get? h = some (.union (moved :: rest)) →
      labels[moved]? = some (.moved name) → arena.get? moved = some (.eq first) →
      (∀ value ∈ first :: rest, ∃ label, labels[value]? = some label ∧ Stored plan name label) →
      (∀ label, Stored plan name label → ∃ value ∈ first :: rest, labels[value]? = some label) →
      Placed plan labels arena h (.field name)
  | moved (name value owner index) : arena.get? h = some (.eq value) →
      labels[value]? = some (.own owner index) → Placed plan labels arena h (.moved name)

/-- The outlines of a plan lie in an arena as the labels of its boxes say. Only the labels of moved
values may be given twice. -/
structure Layout (plan : ι → Outline) (labels : List (Label ι)) (arena : Arena) (fields : Fields) :
    Prop where
  size : labels.length = arena.size
  unique : ∀ {a b : Handle} {label : Label ι}, labels[a]? = some label → labels[b]? = some label →
    (∀ name, label ≠ .moved name) → a = b
  own : ∀ owner index, .own owner index ∈ labels ↔ index < (plan owner).boxes.length
  field : ∀ name h, fields.find? name = some h ↔ labels[h]? = some (.field name)
  stored : ∀ {name label}, Stored plan name label → ∃ h, fields.find? name = some h
  placed : ∀ {h : Handle} {label}, labels[h]? = some label → Placed plan labels arena h label

/-! ## Labels that are added -/

/-- A label that is added comes last and leaves the others alone. -/
theorem get?_concat_eq_some {label added : Label ι} {h : Handle} :
    (labels ++ [added])[h]? = some label ↔
      labels[h]? = some label ∨ h = labels.length ∧ label = added := by
  grind

/-- The items of a list keep their places when others are added. -/
theorem get?_mono {α : Type} {items items' : List α} {item : α} {index : Nat}
    (hmore : items <+: items') (hitem : items[index]? = some item) :
    items'[index]? = some item := by
  obtain ⟨added, rfl⟩ := hmore
  grind

/-- In lists that are related item by item, an item of the first has a partner in the second. -/
theorem exists_partner {α β : Type} {R : α → β → Prop} {items : List α} {others : List β}
    (hrelated : List.Forall₂ R items others) {item : α} (hmem : item ∈ items) :
    ∃ other ∈ others, R item other := by
  induction hrelated with
  | nil => cases hmem
  | @cons first other _ _ hfirst _ ih =>
      rcases List.mem_cons.mp hmem with rfl | hmem
      · exact ⟨other, by simp, hfirst⟩
      · obtain ⟨partner, hpartner, hrelated⟩ := ih hmem
        exact ⟨partner, List.mem_cons_of_mem _ hpartner, hrelated⟩

/-- What is shown stays shown when labels are added. -/
theorem Shows.mono {content : Content} {term : Term} (hshows : Shows labels owner content term)
    (hlabels : labels <+: labels') : Shows labels' owner content term := by
  cases hshows with
  | leaf _ hleaf => exact .leaf _ hleaf
  | union items boxes hitems =>
      exact .union items boxes (hitems.imp fun _ _ => get?_mono hlabels)
  | concat _ _ _ _ hleft hright =>
      exact .concat _ _ _ _ (get?_mono hlabels hleft) (get?_mono hlabels hright)
  | eq _ _ hinner => exact .eq _ _ (get?_mono hlabels hinner)
  | load _ _ hfield => exact .load _ _ (get?_mono hlabels hfield)

/-- A box that keeps its content stays in its place when labels are added and its part of the plan
does not change. -/
theorem Placed.mono {h : Handle} {label : Label ι} (hplaced : Placed plan labels arena h label)
    (hlabels : labels <+: labels') (hkeep : arena'.get? h = arena.get? h)
    (hmoved : ∀ name box, labels[box]? = some (.moved name) → arena'.get? box = arena.get? box)
    (hboxes : ∀ owner (index : Nat) content, label = .own owner index →
      (plan owner).boxes[index]? = some content → (plan' owner).boxes[index]? = some content)
    (hstored : ∀ name, label = .field name →
      ∀ other, Stored plan' name other ↔ Stored plan name other) :
    Placed plan' labels' arena' h label := by
  cases hplaced with
  | own owner index content term hcontent hget hshows =>
      exact .own owner index content term (hboxes _ _ _ rfl hcontent) (hkeep.trans hget)
        (hshows.mono hlabels)
  | unset name hget hnone =>
      refine .unset name (hkeep.trans hget) ?_
      intro label hlabel
      exact hnone label ((hstored name rfl label).mp hlabel)
  | single name value label hget hvalue hone =>
      refine .single name value label (hkeep.trans hget) (get?_mono hlabels hvalue) ?_
      intro other
      rw [hstored name rfl, hone]
  | several name moved first rest hget hlabel hfirst hsound hcomplete =>
      refine .several name moved first rest (hkeep.trans hget) (get?_mono hlabels hlabel)
        ((hmoved name moved hlabel).trans hfirst) ?_ ?_
      · intro value hmem
        obtain ⟨label, hvalue, hin⟩ := hsound value hmem
        exact ⟨label, get?_mono hlabels hvalue, (hstored name rfl label).mpr hin⟩
      · intro label hin
        obtain ⟨value, hmem, hvalue⟩ := hcomplete label ((hstored name rfl label).mp hin)
        exact ⟨value, hmem, get?_mono hlabels hvalue⟩
  | moved name value owner index hget hvalue =>
      exact .moved name value owner index (hkeep.trans hget) (get?_mono hlabels hvalue)

/-! ## Changes of a layout -/

/-- The box of a field after a field has got its box. -/
theorem Fields.find?_insert (fields : Fields) (name other : String) (box : Handle) :
    Fields.find? { boxes := fields.boxes.insert name box } other =
      if name = other then some box else fields.find? other := by
  rw [Fields.find?, get?_insert_eq]
  rfl

/-- A value stored by one method more. -/
theorem stored_store [DecidableEq ι] {name other : String} {value : Nat} {label : Label ι} :
    Stored (Function.update base owner (outline.store name value)) other label ↔
      Stored (Function.update base owner outline) other label ∨
        other = name ∧ label = .own owner value := by
  constructor
  · rintro ⟨who, index, rfl, hmem⟩
    by_cases hwho : who = owner
    · subst hwho
      rw [Function.update_self, Outline.store, List.mem_append, List.mem_singleton,
        Prod.mk.injEq] at hmem
      rcases hmem with hmem | ⟨rfl, rfl⟩
      · exact .inl ⟨who, index, rfl, by rwa [Function.update_self]⟩
      · exact .inr ⟨rfl, rfl⟩
    · rw [Function.update_of_ne hwho] at hmem
      exact .inl ⟨who, index, rfl, by rwa [Function.update_of_ne hwho]⟩
  · rintro (⟨who, index, rfl, hmem⟩ | ⟨rfl, rfl⟩)
    · refine ⟨who, index, rfl, ?_⟩
      by_cases hwho : who = owner
      · subst hwho
        rw [Function.update_self] at hmem ⊢
        exact List.mem_append_left _ hmem
      · rwa [Function.update_of_ne hwho] at hmem ⊢
    · exact ⟨owner, value, rfl, by simp [Outline.store]⟩

/-- The boxes of a list hold the values that are stored to a field, all of them and no others. -/
structure Lists (plan : ι → Outline) (labels : List (Label ι)) (name : String)
    (items : List Handle) : Prop where
  sound : ∀ item ∈ items, ∃ label, labels[item]? = some label ∧ Stored plan name label
  complete : ∀ label, Stored plan name label → ∃ item ∈ items, labels[item]? = some label

namespace Lists

variable {name : String} {items : List Handle} {value : Handle} {index : Nat}

/-- The boxes keep their labels when others are added. -/
theorem mono (hlists : Lists plan labels name items) (hlabels : labels <+: labels') :
    Lists plan labels' name items where
  sound := by
    intro item hmem
    obtain ⟨label, hitem, hstored⟩ := hlists.sound item hmem
    exact ⟨label, get?_mono hlabels hitem, hstored⟩
  complete := by
    intro label hstored
    obtain ⟨item, hmem, hitem⟩ := hlists.complete label hstored
    exact ⟨item, hmem, get?_mono hlabels hitem⟩

/-- The box of a value that is stored may be added. -/
theorem store [DecidableEq ι]
    (hlists : Lists (Function.update base owner outline) labels name items)
    (hvalue : labels[value]? = some (.own owner index)) :
    Lists (Function.update base owner (outline.store name index)) labels name
      (items ++ [value]) where
  sound := by
    intro item hmem
    rcases List.mem_append.mp hmem with hmem | hmem
    · obtain ⟨label, hitem, hstored⟩ := hlists.sound item hmem
      exact ⟨label, hitem, stored_store.mpr (.inl hstored)⟩
    · rw [List.mem_singleton.mp hmem]
      exact ⟨_, hvalue, stored_store.mpr (.inr ⟨rfl, rfl⟩)⟩
  complete := by
    intro label hstored
    rcases stored_store.mp hstored with hstored | ⟨_, rfl⟩
    · obtain ⟨item, hmem, hitem⟩ := hlists.complete label hstored
      exact ⟨item, List.mem_append_left _ hmem, hitem⟩
    · exact ⟨value, by simp, hvalue⟩

/-- The box of a value that is stored need not be added when it is listed already. -/
theorem store_listed [DecidableEq ι]
    (hlists : Lists (Function.update base owner outline) labels name items)
    (hvalue : labels[value]? = some (.own owner index)) (hlisted : value ∈ items) :
    Lists (Function.update base owner (outline.store name index)) labels name items where
  sound := fun item hmem => (hlists.store hvalue).sound item (List.mem_append_left _ hmem)
  complete := by
    intro label hstored
    obtain ⟨item, hmem, hitem⟩ := (hlists.store hvalue).complete label hstored
    refine ⟨item, ?_, hitem⟩
    rcases List.mem_append.mp hmem with hmem | hmem
    · exact hmem
    · rwa [List.mem_singleton.mp hmem]

end Lists

namespace Layout

/-- Empty outlines lie in an empty arena. -/
theorem empty (hplan : ∀ owner, plan owner = {}) : Layout plan [] .empty .empty where
  size := rfl
  unique hlabel := by simp at hlabel
  own := by simp [hplan]
  field := by simp [Fields.find?, Fields.empty]
  stored := by
    rintro name label ⟨owner, index, _, hmem⟩
    simp [hplan] at hmem
  placed hlabel := by simp at hlabel

/-- A labelled box has content. -/
theorem get (hlayout : Layout plan labels arena fields) {h : Handle} {label : Label ι}
    (hlabel : labels[h]? = some label) : ∃ term, arena.get? h = some term := by
  cases hlayout.placed hlabel with
  | own _ _ _ term _ hget | unset _ hget | single _ _ _ hget | several _ _ _ _ hget
  | moved _ _ _ _ hget => exact ⟨_, hget⟩

/-- The next free handle has no label. -/
theorem size_not_mem (hlayout : Layout plan labels arena fields) {h : Handle} {label : Label ι}
    (hlabel : labels[h]? = some label) : h ≠ arena.size := by
  have hlt := (List.getElem?_eq_some_iff.mp hlabel).1
  rw [hlayout.size] at hlt
  exact Nat.ne_of_lt hlt

/-- A new box may be added when it holds what its label promises. -/
theorem push (hlayout : Layout plan labels arena fields) {label : Label ι} {term : Term}
    (hfresh : (∀ name, label ≠ .moved name) → label ∉ labels)
    (hown : ∀ owner index,
      .own owner index ∈ labels ++ [label] ↔ index < (plan' owner).boxes.length)
    (hfield : ∀ name h,
      fields'.find? name = some h ↔ (labels ++ [label])[h]? = some (.field name))
    (hboxes : ∀ owner (index : Nat) content, (plan owner).boxes[index]? = some content →
      (plan' owner).boxes[index]? = some content)
    (hstores : ∀ owner, (plan' owner).stores = (plan owner).stores)
    (hnew : Placed plan' (labels ++ [label]) (arena.alloc term).2 arena.size label) :
    Layout plan' (labels ++ [label]) (arena.alloc term).2 fields' := by
  have hstored : ∀ name other, Stored plan' name other ↔ Stored plan name other := by
    intro name other
    simp only [Stored, hstores]
  have hkeep : ∀ {h : Handle} {other}, labels[h]? = some other →
      (arena.alloc term).2.get? h = arena.get? h := by
    intro h other hlabel
    rw [Arena.get?_alloc, if_neg (hlayout.size_not_mem hlabel)]
  constructor
  · rw [List.length_append, List.length_singleton, hlayout.size, Arena.size_alloc]
  · intro a b other ha hb hproper
    rw [get?_concat_eq_some] at ha hb
    rcases ha with ha | ⟨rfl, rfl⟩ <;> rcases hb with hb | ⟨rfl, hb⟩
    · exact hlayout.unique ha hb hproper
    · subst hb
      exact absurd (List.mem_of_getElem? ha) (hfresh hproper)
    · exact absurd (List.mem_of_getElem? hb) (hfresh hproper)
    · rfl
  · exact hown
  · exact hfield
  · intro name other hother
    obtain ⟨h, hfind⟩ := hlayout.stored ((hstored name other).mp hother)
    have hlabel := (hlayout.field name h).mp hfind
    exact ⟨h, (hfield name h).mpr (get?_concat_eq_some.mpr (.inl hlabel))⟩
  · intro h other hlabel
    rcases get?_concat_eq_some.mp hlabel with hold | ⟨rfl, rfl⟩
    · exact (hlayout.placed hold).mono (List.prefix_append _ _) (hkeep hold)
        (fun _ _ => hkeep) (fun _ _ _ _ => hboxes _ _ _) (fun name _ => hstored name)
    · rwa [hlayout.size]

/-- The value of a field moves to a box of its own. -/
theorem push_moved (hlayout : Layout plan labels arena fields) {name : String} {value index : Nat}
    (hvalue : labels[value]? = some (.own owner index)) :
    Layout plan (labels ++ [.moved name]) (arena.alloc (.eq value)).2 fields := by
  refine hlayout.push ?_ ?_ ?_ (fun _ _ _ hcontent => hcontent) (fun _ => rfl) ?_
  · exact fun hproper => absurd rfl (hproper name)
  · intro who index
    rw [← hlayout.own]
    simp
  · intro other h
    rw [hlayout.field, get?_concat_eq_some]
    simp
  · refine .moved name value owner index ?_ (get?_concat_eq_some.mpr (.inl hvalue))
    rw [Arena.get?_alloc, if_pos rfl]

/-- A field that is mentioned for the first time gets a box without content. -/
theorem push_field (hlayout : Layout plan labels arena fields) {name : String}
    (hnew : fields.find? name = none) :
    Layout plan (labels ++ [.field name]) (arena.alloc .pending).2
      { boxes := fields.boxes.insert name arena.size } := by
  have hfresh : Label.field name ∉ labels := by
    intro hmem
    obtain ⟨h, hlabel⟩ := List.mem_iff_getElem?.mp hmem
    rw [← hlayout.field, hnew] at hlabel
    cases hlabel
  refine hlayout.push (fun _ => hfresh) ?_ ?_ (fun _ _ _ hcontent => hcontent) (fun _ => rfl) ?_
  · intro who index
    rw [← hlayout.own]
    simp
  · intro other h
    rw [get?_concat_eq_some, ← hlayout.field, Fields.find?_insert]
    split
    · rename_i hname
      subst hname
      simp [hnew, hlayout.size, eq_comm]
    · rename_i hname
      simp [Ne.symm hname]
  · refine .unset name (by rw [Arena.get?_alloc, if_pos rfl]) ?_
    intro label hstored
    obtain ⟨h, hfind⟩ := hlayout.stored hstored
    rw [hnew] at hfind
    cases hfind

/-- A method gets a new box. -/
theorem push_own [DecidableEq ι]
    (hlayout : Layout (Function.update base owner outline) labels arena fields) {content : Content}
    {term : Term} (hshows : Shows labels owner content term) :
    Layout (Function.update base owner (outline.alloc content).2)
      (labels ++ [.own owner (outline.alloc content).1]) (arena.alloc term).2 fields := by
  have hfresh : Label.own owner outline.boxes.length ∉ labels := by
    rw [hlayout.own, Function.update_self]
    exact Nat.lt_irrefl _
  refine hlayout.push (fun _ => hfresh) ?_ ?_ ?_ ?_ ?_
  · intro who index
    rw [List.mem_append, hlayout.own, List.mem_singleton, Label.own.injEq]
    by_cases hwho : who = owner
    · subst hwho
      simp only [Function.update_self, Outline.alloc, List.length_append, List.length_singleton,
        true_and]
      omega
    · simp [hwho]
  · intro name h
    rw [hlayout.field, get?_concat_eq_some]
    simp
  · intro who index old hold
    by_cases hwho : who = owner
    · subst hwho
      rw [Function.update_self] at hold ⊢
      exact get?_mono (List.prefix_append _ _) hold
    · rwa [Function.update_of_ne hwho] at hold ⊢
  · intro who
    by_cases hwho : who = owner
    · subst hwho
      simp [Outline.alloc]
    · simp [Function.update_of_ne hwho]
  · refine .own owner _ content term ?_ ?_ (hshows.mono (List.prefix_append _ _))
    · simp [Outline.alloc]
    · rw [Arena.get?_alloc, if_pos rfl]

/-- A box of a method that has no content yet is filled. -/
theorem refine [DecidableEq ι]
    (hlayout : Layout (Function.update base owner outline) labels arena fields) {h value : Handle}
    {index inner : Nat} (hlabel : labels[h]? = some (.own owner index))
    (hvalue : labels[value]? = some (.own owner inner)) :
    Layout (Function.update base owner
      { outline with boxes := outline.boxes.set index (.term (.eq inner)) }) labels
      (arena.set h (.eq value)) fields := by
  have hbox : h < arena.size := by
    rw [← hlayout.size]
    exact (List.getElem?_eq_some_iff.mp hlabel).1
  have hindex : index < outline.boxes.length := by
    have hmem := (hlayout.own owner index).mp (List.mem_of_getElem? hlabel)
    rwa [Function.update_self] at hmem
  have hstored : ∀ name other,
      Stored (Function.update base owner
        { outline with boxes := outline.boxes.set index (.term (.eq inner)) }) name other ↔
      Stored (Function.update base owner outline) name other := by
    intro name other
    simp only [Stored, Function.update_apply]
    refine exists_congr fun who => exists_congr fun _ => and_congr_right fun _ => ?_
    split <;> rfl
  have hlength : ∀ who, (Function.update base owner
      { outline with boxes := outline.boxes.set index (.term (.eq inner)) } who).boxes.length =
      (Function.update base owner outline who).boxes.length := by
    intro who
    simp only [Function.update_apply]
    split
    · exact List.length_set
    · rfl
  constructor
  · rw [hlayout.size, Arena.size_set]
  · exact hlayout.unique
  · intro who other
    rw [hlayout.own, hlength]
  · exact hlayout.field
  · intro name other hother
    exact hlayout.stored ((hstored name other).mp hother)
  · intro box label hother
    by_cases heq : h = box
    · subst heq
      cases hlabel.symm.trans hother
      refine .own owner index (.term (.eq inner)) (.eq value) ?_ (Arena.get?_set_self hbox _)
        (.eq inner value hvalue)
      rw [Function.update_self]
      exact List.getElem?_set_self hindex
    · refine (hlayout.placed hother).mono (List.prefix_refl _) (Arena.get?_set_of_ne _ heq _) ?_ ?_
        fun name _ => hstored name
      · intro name moved hmoved
        refine Arena.get?_set_of_ne _ ?_ _
        rintro rfl
        cases hlabel.symm.trans hmoved
      · rintro who other content rfl hcontent
        by_cases hwho : who = owner
        · subst hwho
          have hne : index ≠ other := by
            rintro rfl
            exact heq (hlayout.unique hlabel hother (by simp))
          rw [Function.update_self] at hcontent ⊢
          rw [List.getElem?_set_ne hne]
          exact hcontent
        · rwa [Function.update_of_ne hwho] at hcontent ⊢

/-- A value is stored to a field whose box holds it then. -/
theorem fill [DecidableEq ι]
    (hlayout : Layout (Function.update base owner outline) labels arena fields) {h : Handle}
    {name : String} {value : Nat} (hlabel : labels[h]? = some (.field name))
    (hsize : arena'.size = arena.size) (hkeep : ∀ box, box ≠ h → arena'.get? box = arena.get? box)
    (hplaced : Placed (Function.update base owner (outline.store name value)) labels arena' h
      (.field name)) :
    Layout (Function.update base owner (outline.store name value)) labels arena' fields := by
  have hboxes : ∀ who, (Function.update base owner (outline.store name value) who).boxes =
      (Function.update base owner outline who).boxes := by
    intro who
    simp only [Function.update_apply]
    split <;> rfl
  constructor
  · rw [hlayout.size, hsize]
  · exact hlayout.unique
  · intro who index
    rw [hlayout.own, hboxes]
  · exact hlayout.field
  · intro other label hstored
    rcases stored_store.mp hstored with hstored | ⟨rfl, _⟩
    · exact hlayout.stored hstored
    · exact ⟨h, (hlayout.field other h).mpr hlabel⟩
  · intro box label hother
    by_cases heq : box = h
    · subst heq
      cases hlabel.symm.trans hother
      exact hplaced
    · refine (hlayout.placed hother).mono (List.prefix_refl _) (hkeep box heq) ?_ ?_ ?_
      · intro moved box' hmoved
        refine hkeep box' ?_
        rintro rfl
        cases hlabel.symm.trans hmoved
      · intro who index content _ hcontent
        rwa [hboxes]
      · rintro other rfl label
        rw [stored_store]
        constructor
        · rintro (hstored | ⟨rfl, _⟩)
          · exact hstored
          · exact absurd (hlayout.unique hother hlabel (by simp)) heq
        · exact .inl

/-- Only the boxes and the stores of an outline lie in the arena. -/
theorem congr [DecidableEq ι]
    (hlayout : Layout (Function.update base owner outline) labels arena fields) {outline' : Outline}
    (hboxes : outline'.boxes = outline.boxes) (hstores : outline'.stores = outline.stores) :
    Layout (Function.update base owner outline') labels arena fields := by
  have hboxes' : ∀ who, (Function.update base owner outline' who).boxes =
      (Function.update base owner outline who).boxes := by
    intro who
    simp only [Function.update_apply]
    split <;> simp [hboxes]
  have hstored : ∀ name label, Stored (Function.update base owner outline') name label ↔
      Stored (Function.update base owner outline) name label := by
    intro name label
    simp only [Stored, Function.update_apply]
    refine exists_congr fun who => exists_congr fun _ => and_congr_right fun _ => ?_
    split <;> simp [hstores]
  constructor
  · exact hlayout.size
  · exact hlayout.unique
  · intro who index
    rw [hlayout.own, hboxes']
  · exact hlayout.field
  · intro name label hlabel
    exact hlayout.stored ((hstored name label).mp hlabel)
  · intro h label hlabel
    refine (hlayout.placed hlabel).mono (List.prefix_refl _) rfl (fun _ _ _ => rfl) ?_
      fun name _ => hstored name
    intro who index content _ hcontent
    rwa [hboxes']

section Store

variable [DecidableEq ι] {value box : Handle} {index : Nat} {name : String}

/-- A value is stored to a field that was not mentioned before. -/
theorem store_new (hlayout : Layout (Function.update base owner outline) labels arena fields)
    (hvalue : labels[value]? = some (.own owner index)) (hfind : fields.find? name = none) :
    Layout (Function.update base owner (outline.store name index)) (labels ++ [.field name])
      (arena.alloc (.eq value)).2 { boxes := fields.boxes.insert name arena.size } := by
  have hnone : ∀ label, ¬ Stored (Function.update base owner outline) name label := by
    intro label hstored
    obtain ⟨h, hother⟩ := hlayout.stored hstored
    cases hfind.symm.trans hother
  refine (hlayout.push_field hfind).fill (h := arena.size) ?_ ?_ ?_ ?_
  · exact get?_concat_eq_some.mpr (.inr ⟨hlayout.size.symm, rfl⟩)
  · rw [Arena.size_alloc, Arena.size_alloc]
  · intro box hbox
    rw [Arena.get?_alloc, Arena.get?_alloc, if_neg hbox, if_neg hbox]
  · refine .single name value (.own owner index) ?_ (get?_concat_eq_some.mpr (.inl hvalue)) ?_
    · rw [Arena.get?_alloc, if_pos rfl]
    · intro other
      simp [stored_store, hnone]

/-- A second value is stored to a field. The value so far moves to a new box, and the box of the
field becomes a union. -/
theorem store_second {first : Handle}
    (hlayout : Layout (Function.update base owner outline) labels arena fields)
    (hvalue : labels[value]? = some (.own owner index)) (hlabel : labels[box]? = some (.field name))
    (hlists : Lists (Function.update base owner outline) labels name [first]) :
    Layout (Function.update base owner (outline.store name index)) (labels ++ [.moved name])
      ((arena.alloc (.eq first)).2.set box (.union [arena.size, value])) fields := by
  have hbox : box < (arena.alloc (.eq first)).2.size := by
    rw [Arena.size_alloc, ← hlayout.size]
    exact Nat.lt_succ_of_lt (List.getElem?_eq_some_iff.mp hlabel).1
  obtain ⟨_, hfirst, who, inner, rfl, _⟩ := hlists.sound first (List.mem_singleton.mpr rfl)
  refine (hlayout.push_moved hfirst).fill (get?_concat_eq_some.mpr (.inl hlabel))
    (Arena.size_set _ _ _) ?_ ?_
  · exact fun other hother => Arena.get?_set_of_ne _ (Ne.symm hother) _
  · have hboth := (hlists.store hvalue).mono (List.prefix_append labels [.moved name])
    refine .several name arena.size first [value] (Arena.get?_set_self hbox _) ?_ ?_ hboth.sound
      hboth.complete
    · exact get?_concat_eq_some.mpr (.inr ⟨hlayout.size.symm, rfl⟩)
    · rw [Arena.get?_set_of_ne _ (hlayout.size_not_mem hlabel), Arena.get?_alloc, if_pos rfl]

/-- A further value is stored to a field, unless its box is listed already. -/
theorem store_more {moved first : Handle} {rest : List Handle}
    (hlayout : Layout (Function.update base owner outline) labels arena fields)
    (hvalue : labels[value]? = some (.own owner index)) (hlabel : labels[box]? = some (.field name))
    (hget : arena.get? box = some (.union (moved :: rest)))
    (hmoved : labels[moved]? = some (.moved name)) (hfirst : arena.get? moved = some (.eq first))
    (hlists : Lists (Function.update base owner outline) labels name (first :: rest)) :
    Layout (Function.update base owner (outline.store name index)) labels
      (if (moved :: rest).contains value then arena
        else arena.set box (.union (moved :: rest ++ [value]))) fields := by
  split
  · -- The value is not listed as the moved one, which has another label.
    rename_i hlisted
    have hmem : value ∈ first :: rest := by
      rcases List.mem_cons.mp (List.contains_iff_mem.mp hlisted) with rfl | hmem
      · cases hmoved.symm.trans hvalue
      · exact List.mem_cons_of_mem first hmem
    have hsame := hlists.store_listed hvalue hmem
    refine hlayout.fill hlabel rfl (fun _ _ => rfl) ?_
    exact .several name moved first rest hget hmoved hfirst hsame.sound hsame.complete
  · have hne : box ≠ moved := by
      rintro rfl
      cases hlabel.symm.trans hmoved
    have hmore := hlists.store hvalue
    refine hlayout.fill hlabel (Arena.size_set _ _ _) ?_ ?_
    · exact fun other hother => Arena.get?_set_of_ne _ (Ne.symm hother) _
    · exact .several name moved first (rest ++ [value])
        (Arena.get?_set_self (Arena.lt_size_of_get? hget) _) hmoved
        ((Arena.get?_set_of_ne _ hne _).trans hfirst) hmore.sound hmore.complete

/-- Storing a value to a field succeeds. -/
theorem store (hlayout : Layout (Function.update base owner outline) labels arena fields)
    (hvalue : labels[value]? = some (.own owner index)) (name : String) :
    ∃ box fields' arena' labels', fields.store arena name value = .ok (box, fields', arena') ∧
      labels <+: labels' ∧
      Layout (Function.update base owner (outline.store name index)) labels' arena' fields' := by
  obtain ⟨content, hcontent⟩ := hlayout.get hvalue
  cases hfind : fields.find? name with
  | none =>
      exact ⟨_, _, _, _, Fields.store_new hfind arena value, List.prefix_append _ _,
        hlayout.store_new hvalue hfind⟩
  | some box =>
      have hlabel := (hlayout.field name box).mp hfind
      cases hlayout.placed hlabel with
      | unset _ hget hnone =>
          refine ⟨box, fields, _, labels, Fields.store_pending hfind hget hcontent,
            List.prefix_refl _, ?_⟩
          refine hlayout.fill hlabel (Arena.size_set _ _ _) ?_ ?_
          · exact fun other hother => Arena.get?_set_of_ne _ (Ne.symm hother) _
          · refine .single name value _ (Arena.get?_set_self (Arena.lt_size_of_get? hget) _) hvalue
              ?_
            intro other
            simp [stored_store, hnone]
      | single _ first label hget hfirst hone =>
          have hlists : Lists (Function.update base owner outline) labels name [first] :=
            ⟨by simpa using ⟨label, hfirst, (hone label).mpr rfl⟩, by simpa [hone] using hfirst⟩
          exact ⟨box, fields, _, _,
            Fields.store_grow hfind hget (by simp)
              (Arena.grow_union_of_ne_union hcontent hget (by simp)),
            List.prefix_append _ _, hlayout.store_second hvalue hlabel hlists⟩
      | several _ moved first rest hget hmoved hfirst hsound hcomplete =>
          exact ⟨box, fields, _, labels,
            Fields.store_grow hfind hget (by simp) (Arena.grow_union_union hcontent hget),
            List.prefix_refl _,
            hlayout.store_more hvalue hlabel hget hmoved hfirst ⟨hsound, hcomplete⟩⟩

end Store

/-- The handles that a labelled box mentions have labels too. -/
theorem child_label (hlayout : Layout plan labels arena fields) {h child : Handle} {label : Label ι}
    (hlabel : labels[h]? = some label) (hchild : arena.Child h child) :
    ∃ below, labels[child]? = some below := by
  cases hlayout.placed hlabel with
  | own _ _ _ term _ hget hshows =>
      rw [Arena.child_iff hget] at hchild
      cases hshows with
      | leaf _ hleaf => simp [Term.children_eq_nil_of_not_compound hleaf] at hchild
      | union items boxes hitems =>
          obtain ⟨item, _, hitem⟩ := exists_partner hitems.flip hchild
          exact ⟨_, hitem⟩
      | concat _ _ a b hleft hright =>
          rcases List.mem_pair.mp hchild with rfl | rfl
          · exact ⟨_, hleft⟩
          · exact ⟨_, hright⟩
      | eq _ a hinner | load _ a hinner =>
          rw [List.mem_singleton.mp hchild]
          exact ⟨_, hinner⟩
  | unset _ hget =>
      rw [Arena.child_iff hget] at hchild
      cases hchild
  | single _ value _ hget hvalue =>
      rw [Arena.child_iff hget] at hchild
      rw [List.mem_singleton.mp hchild]
      exact ⟨_, hvalue⟩
  | several _ moved first rest hget hmoved _ hsound =>
      rw [Arena.child_iff hget] at hchild
      rcases List.mem_cons.mp hchild with rfl | hmem
      · exact ⟨_, hmoved⟩
      · obtain ⟨below, hbelow, _⟩ := hsound child (List.mem_cons_of_mem _ hmem)
        exact ⟨below, hbelow⟩
  | moved _ value _ _ hget hvalue =>
      rw [Arena.child_iff hget] at hchild
      rw [List.mem_singleton.mp hchild]
      exact ⟨_, hvalue⟩

/-- No handle below a labelled box dangles. -/
theorem intact (hlayout : Layout plan labels arena fields) {h : Handle} {label : Label ι}
    (hlabel : labels[h]? = some label) : arena.Intact h := by
  intro below hreach
  have hbelow : ∃ label, labels[below]? = some label := by
    induction hreach with
    | refl => exact ⟨label, hlabel⟩
    | tail _ hchild ih =>
        obtain ⟨_, hbetween⟩ := ih
        exact hlayout.child_label hbetween hchild
  obtain ⟨_, hbelow⟩ := hbelow
  exact hlayout.get hbelow

end Layout

end StringReach
