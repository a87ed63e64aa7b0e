import StringReach.Proofs.Layout
import StringReach.Proofs.Unfolding

/-!
# The meaning of labels

What a box unfolds to depends on its label only, and not on where the boxes of a plan lie in the
arena (`Layout.unfolds_iff_spells`). The labels have forms of their own, which say of which other
labels they are made, and `Spells` unfolds labels by their forms in the way in which boxes are
unfolded. The boxes to which the first values of fields were moved have no counterpart among the
labels; they are never cut off, because none of them is entered more often than the box of its
field (`Abreast`).
-/

namespace StringReach

/-- How a label is made of others. -/
inductive Form (ι : Type) where
  | leaf (term : Term)
  /-- Any of some values. -/
  | choice (others : Set (Label ι))
  /-- One value followed by another. -/
  | join (left right : Label ι)

/-- The form of a box of a method. -/
def Content.form {ι : Type} (owner : ι) : Content → Form ι
  | .term (.union items) => .choice {label | ∃ item ∈ items, label = .own owner item}
  | .term (.concat left right) => .join (.own owner left) (.own owner right)
  | .term (.eq inner) => .choice {.own owner inner}
  | .term other => .leaf other
  | .load field => .choice {.field field}

/-- `FormOf plan label form` says how a label is made of others in a plan. The labels of moved
values have no form. -/
inductive FormOf {ι : Type} (plan : ι → Outline) : Label ι → Form ι → Prop where
  | own (owner index content) : (plan owner).boxes[index]? = some content →
      FormOf plan (.own owner index) (content.form owner)
  | unset (name) : (∀ label, ¬ Stored plan name label) →
      FormOf plan (.field name) (.leaf .pending)
  | stored (name label) : Stored plan name label →
      FormOf plan (.field name) (.choice {label | Stored plan name label})

/-- `Spells plan depth path label text` says that `text` is a string of the unfolding of a label
that is reached along the labels of `path`. -/
inductive Spells {ι : Type} [DecidableEq ι] (plan : ι → Outline) (depth : Nat) :
    List (Label ι) → Label ι → String → Prop where
  | leaf (path label term text) : FormOf plan label (.leaf term) →
      text ∈ (term.assemble []).language → Spells plan depth path label text
  | cut (path label form) : FormOf plan label form → (∀ term, form ≠ .leaf term) →
      depth < path.count label → Spells plan depth path label Wildcard.marker
  | choice (path label others other text) : FormOf plan label (.choice others) →
      path.count label ≤ depth → other ∈ others → Spells plan depth (label :: path) other text →
      Spells plan depth path label text
  | join (path label left right first second) : FormOf plan label (.join left right) →
      path.count label ≤ depth → Spells plan depth (label :: path) left first →
      Spells plan depth (label :: path) right second →
      Spells plan depth path label (first ++ second)

/-- `Ends plan label` says that every descent from a label ends, and not at an empty box. -/
inductive Ends {ι : Type} (plan : ι → Outline) : Label ι → Prop where
  | leaf (label term) : FormOf plan label (.leaf term) → term ≠ .pending → Ends plan label
  | choice (label others) : FormOf plan label (.choice others) →
      (∀ other ∈ others, Ends plan other) → Ends plan label
  | join (label left right) : FormOf plan label (.join left right) → Ends plan left →
      Ends plan right → Ends plan label

variable {ι : Type} {plan : ι → Outline} {labels : List (Label ι)} {arena : Arena} {fields : Fields}
  {label : Label ι} {form form' : Form ι}

/-- A label has one form. -/
theorem FormOf.unique (hform : FormOf plan label form) (hother : FormOf plan label form') :
    form = form' := by
  cases hform with
  | own owner index content hcontent =>
      cases hother with
      | own _ _ other hother =>
          cases hcontent.symm.trans hother
          rfl
  | unset name hnone =>
      cases hother with
      | unset => rfl
      | stored _ label hstored => exact absurd hstored (hnone label)
  | stored name label hstored =>
      cases hother with
      | unset _ hnone => exact absurd hstored (hnone label)
      | stored => rfl

namespace Spells

variable [DecidableEq ι] {depth : Nat} {path : List (Label ι)} {text : String}

/-- A label without others spells what every solver gives to a box without children. -/
theorem leaf_iff {term : Term} (hform : FormOf plan label (.leaf term)) :
    Spells plan depth path label text ↔ text ∈ (term.assemble []).language := by
  constructor
  · intro hspells
    cases hspells with
    | leaf _ _ _ _ hother htext =>
        cases hform.unique hother
        exact htext
    | cut _ _ _ hother hcompound => exact absurd (hform.unique hother).symm (hcompound term)
    | choice _ _ _ _ _ hother => cases hform.unique hother
    | join _ _ _ _ _ _ hother => cases hform.unique hother
  · exact .leaf path label term text hform

/-- A label that stands on the path too often spells the wildcard only. -/
theorem cut_iff (hform : FormOf plan label form) (hcompound : ∀ term, form ≠ .leaf term)
    (hcount : depth < path.count label) :
    Spells plan depth path label text ↔ text = Wildcard.marker := by
  constructor
  · intro hspells
    cases hspells with
    | leaf _ _ term _ hother => exact absurd (hform.unique hother) (hcompound term)
    | cut => rfl
    | choice _ _ _ _ _ _ hle => omega
    | join _ _ _ _ _ _ _ hle => omega
  · rintro rfl
    exact .cut path label form hform hcompound hcount

/-- A choice spells what one of the others spells. -/
theorem choice_iff {others : Set (Label ι)} (hform : FormOf plan label (.choice others))
    (hcount : path.count label ≤ depth) :
    Spells plan depth path label text ↔
      ∃ other ∈ others, Spells plan depth (label :: path) other text := by
  constructor
  · intro hspells
    cases hspells with
    | leaf _ _ _ _ hother => cases hform.unique hother
    | cut _ _ _ _ _ hlt => omega
    | choice _ _ _ other _ hother _ hmem hspells =>
        cases hform.unique hother
        exact ⟨other, hmem, hspells⟩
    | join _ _ _ _ _ _ hother => cases hform.unique hother
  · rintro ⟨other, hmem, hspells⟩
    exact .choice path label others other text hform hcount hmem hspells

/-- A join spells what the first spells followed by what the second spells. -/
theorem join_iff {left right : Label ι} (hform : FormOf plan label (.join left right))
    (hcount : path.count label ≤ depth) :
    Spells plan depth path label text ↔
      ∃ first, Spells plan depth (label :: path) left first ∧
        ∃ second, Spells plan depth (label :: path) right second ∧ first ++ second = text := by
  constructor
  · intro hspells
    cases hspells with
    | leaf _ _ _ _ hother => cases hform.unique hother
    | cut _ _ _ _ _ hlt => omega
    | choice _ _ _ _ _ hother => cases hform.unique hother
    | join _ _ _ _ first second hother _ hfirst hsecond =>
        cases hform.unique hother
        exact ⟨first, hfirst, second, hsecond, rfl⟩
  · rintro ⟨first, hfirst, second, hsecond, rfl⟩
    exact .join path label left right first second hform hcount hfirst hsecond

end Spells

/-! ## Boxes and their labels -/

/-- Only the labels of moved values are not proper. -/
def Label.Proper (label : Label ι) : Prop :=
  ∀ name, label ≠ .moved name

/-- A child of a box stands for a label: it has the label, or it is the moved value of a field and
leads to a box that has it. -/
inductive Stands (labels : List (Label ι)) (arena : Arena) (h child : Handle) (other : Label ι) :
    Prop where
  | direct : labels[child]? = some other → Stands labels arena h child other
  | moved (name first) : labels[h]? = some (.field name) → labels[child]? = some (.moved name) →
      arena.get? child = some (.eq first) → labels[first]? = some other →
      Stands labels arena h child other

/-- The content of a box has a form. -/
inductive Realizes (labels : List (Label ι)) (arena : Arena) (h : Handle) : Form ι → Prop where
  | leaf (term) : arena.get? h = some term → term.isCompound = false →
      Realizes labels arena h (.leaf term)
  | choice (term others) : arena.get? h = some term → term.isCompound = true →
      (∀ left right, term ≠ .concat left right) → (∀ other ∈ others, other.Proper) →
      (∀ child ∈ term.children, ∃ other ∈ others, Stands labels arena h child other) →
      (∀ other ∈ others, ∃ child ∈ term.children, Stands labels arena h child other) →
      Realizes labels arena h (.choice others)
  | join (a b left right) : arena.get? h = some (.concat a b) → labels[a]? = some left →
      labels[b]? = some right → left.Proper → right.Proper →
      Realizes labels arena h (.join left right)

/-- A box with the values of another is a choice of one. -/
theorem Realizes.one {h a : Handle} (hget : arena.get? h = some (.eq a))
    (ha : labels[a]? = some label) (hproper : label.Proper) :
    Realizes labels arena h (.choice {label}) := by
  refine .choice _ _ hget rfl (by simp) ?_ ?_ ?_
  · rintro _ rfl
    exact hproper
  · intro child hchild
    rw [List.mem_singleton.mp hchild]
    exact ⟨label, rfl, .direct ha⟩
  · rintro _ rfl
    exact ⟨a, List.mem_singleton.mpr rfl, .direct ha⟩

/-- A value that is stored to a field has a proper label. -/
theorem Stored.proper {name : String} (hstored : Stored plan name label) : label.Proper := by
  obtain ⟨owner, index, rfl, _⟩ := hstored
  intro name
  simp

/-- The content of a box with a proper label has the form of the label. -/
theorem Layout.realizes (hlayout : Layout plan labels arena fields) {h : Handle}
    (hlabel : labels[h]? = some label) (hproper : label.Proper) :
    ∃ form, FormOf plan label form ∧ Realizes labels arena h form := by
  cases hlayout.placed hlabel with
  | own owner index content term hcontent hget hshows =>
      refine ⟨_, .own owner index content hcontent, ?_⟩
      cases hshows with
      | leaf _ hleaf =>
          cases term with
          | union _ | concat _ _ | eq _ => cases hleaf
          | top | bottom | terminal _ | parameter | pending | call _ => exact .leaf _ hget rfl
      | union items boxes hitems =>
          refine .choice _ _ hget rfl (by simp) ?_ ?_ ?_
          · rintro _ ⟨item, _, rfl⟩ name
            simp
          · intro child hchild
            obtain ⟨item, hmem, hitem⟩ := exists_partner hitems.flip hchild
            exact ⟨_, ⟨item, hmem, rfl⟩, .direct hitem⟩
          · rintro _ ⟨item, hmem, rfl⟩
            obtain ⟨child, hchild, hitem⟩ := exists_partner hitems hmem
            exact ⟨child, hchild, .direct hitem⟩
      | concat left right a b hleft hright =>
          exact .join a b _ _ hget hleft hright (by simp [Label.Proper]) (by simp [Label.Proper])
      | eq inner a hinner => exact .one hget hinner (by simp [Label.Proper])
      | load name a hfield => exact .one hget hfield (by simp [Label.Proper])
  | unset name hget hnone => exact ⟨_, .unset name hnone, .leaf _ hget rfl⟩
  | single name value other hget hvalue hone =>
      have hstored := (hone other).mpr rfl
      have hothers : {label | Stored plan name label} = {other} := Set.ext hone
      refine ⟨_, .stored name other hstored, ?_⟩
      rw [hothers]
      exact .one hget hvalue hstored.proper
  | several name moved first rest hget hmoved hfirst hsound hcomplete =>
      obtain ⟨label, hvalue, hstored⟩ := hsound first (by simp)
      refine ⟨_, .stored name label hstored, .choice _ _ hget rfl (by simp) ?_ ?_ ?_⟩
      · exact fun other hother => Stored.proper hother
      · intro child hchild
        -- The moved child stands for the first value, and the others for themselves.
        rcases List.mem_cons.mp hchild with rfl | hchild
        · exact ⟨label, hstored, .moved name first hlabel hmoved hfirst hvalue⟩
        · obtain ⟨other, hother, hstored'⟩ := hsound child (List.mem_cons_of_mem _ hchild)
          exact ⟨other, hstored', .direct hother⟩
      · intro other hother
        obtain ⟨value, hmem, hvalue'⟩ := hcomplete other hother
        rcases List.mem_cons.mp hmem with rfl | hmem
        · exact ⟨moved, by simp [Term.children], .moved name value hlabel hmoved hfirst hvalue'⟩
        · exact ⟨value, List.mem_cons_of_mem _ hmem, .direct hvalue'⟩
  | moved name => exact absurd rfl (hproper name)

/-- The form of a compound box is not that of a leaf. -/
theorem Realizes.ne_leaf {h : Handle} {content : Term} (hrealizes : Realizes labels arena h form)
    (hget : arena.get? h = some content) (hcompound : content.isCompound = true) (term : Term) :
    form ≠ .leaf term := by
  rintro rfl
  cases hrealizes with
  | leaf _ hother hleaf =>
      cases hget.symm.trans hother
      cases hleaf.symm.trans hcompound

/-- A compound box that joins nothing is a choice among what its children stand for. -/
theorem Layout.exists_choice (hlayout : Layout plan labels arena fields) {h : Handle} {term : Term}
    (hlabel : labels[h]? = some label) (hproper : label.Proper) (hget : arena.get? h = some term)
    (hcompound : term.isCompound = true) (hconcat : ∀ left right, term ≠ .concat left right) :
    ∃ others, FormOf plan label (.choice others) ∧ (∀ other ∈ others, other.Proper) ∧
      (∀ child ∈ term.children, ∃ other ∈ others, Stands labels arena h child other) ∧
      ∀ other ∈ others, ∃ child ∈ term.children, Stands labels arena h child other := by
  obtain ⟨form, hform, hrealizes⟩ := hlayout.realizes hlabel hproper
  cases hrealizes with
  | leaf _ hother hleaf =>
      cases hget.symm.trans hother
      cases hleaf.symm.trans hcompound
  | choice _ others hother _ _ hothers hsound hcomplete =>
      cases hget.symm.trans hother
      exact ⟨others, hform, hothers, hsound, hcomplete⟩
  | join a b _ _ hother =>
      cases hget.symm.trans hother
      exact absurd rfl (hconcat a b)

/-! ## Paths of boxes and paths of labels -/

section

variable [DecidableEq ι] {depth : Nat} {steps : List (Label ι)} {path : List Handle}
  {h child : Handle} {other : Label ι} {name : String}

/-- A path of boxes passes each box as often as a path of labels passes the label of the box. A
moved value, of which the labels know nothing, is passed only after the box of its field. -/
structure Abreast (labels steps : List (Label ι)) (path : List Handle) : Prop where
  count : ∀ {h : Handle} {label}, labels[h]? = some label → label.Proper →
    path.count h = steps.count label
  moved : ∀ {h box : Handle} {name}, labels[h]? = some (.moved name) →
    labels[box]? = some (.field name) → path.count h ≤ path.count box

namespace Abreast

/-- Nothing is passed at first. -/
theorem nil : Abreast labels [] [] :=
  ⟨fun _ _ => rfl, fun _ _ => Nat.le_refl 0⟩

/-- Both paths may be extended at a proper label. -/
theorem enter (hlayout : Layout plan labels arena fields) (hpaths : Abreast labels steps path)
    (hlabel : labels[h]? = some label) (hproper : label.Proper) :
    Abreast labels (label :: steps) (h :: path) where
  count := by
    intro h' label' hlabel' hproper'
    by_cases hbox : h = h'
    · subst hbox
      cases hlabel.symm.trans hlabel'
      simp [hpaths.count hlabel hproper]
    · have hne : label ≠ label' := fun heq => hbox (hlayout.unique hlabel (heq ▸ hlabel') hproper)
      rw [List.count_cons_of_ne hbox, List.count_cons_of_ne hne]
      exact hpaths.count hlabel' hproper'
  moved := by
    intro h' box name hmoved hbox
    have hne : h ≠ h' := by
      rintro rfl
      cases hlabel.symm.trans hmoved
      exact hproper name rfl
    rw [List.count_cons_of_ne hne]
    exact (hpaths.moved hmoved hbox).trans List.count_le_count_cons

/-- From the box of a field the path of boxes alone may go on to the moved value. -/
theorem enter_moved (hlayout : Layout plan labels arena fields) (hpaths : Abreast labels steps path)
    (hfield : labels[h]? = some (.field name)) (hmoved : labels[child]? = some (.moved name)) :
    Abreast labels (.field name :: steps) (child :: h :: path) where
  count := by
    intro h' label' hlabel' hproper'
    have hne : child ≠ h' := by
      rintro rfl
      cases hmoved.symm.trans hlabel'
      exact hproper' name rfl
    rw [List.count_cons_of_ne hne]
    exact (hpaths.enter hlayout hfield (by simp [Label.Proper])).count hlabel' hproper'
  moved := by
    intro h' box name' hmoved' hbox
    by_cases hsame : child = h'
    · subst hsame
      cases hmoved.symm.trans hmoved'
      cases hlayout.unique hfield hbox (by simp)
      -- The moved value and its field are both passed once more.
      have hne : h ≠ child := by
        rintro rfl
        cases hfield.symm.trans hmoved
      have hle := hpaths.moved hmoved hfield
      rw [List.count_cons_self, List.count_cons_of_ne hne, List.count_cons_of_ne hne.symm,
        List.count_cons_self]
      omega
    · rw [List.count_cons_of_ne hsame]
      exact ((hpaths.enter hlayout hfield (by simp [Label.Proper])).moved hmoved' hbox).trans
        List.count_le_count_cons

/-- A moved value is not cut off when the box of its field is not. -/
theorem count_moved_le (hpaths : Abreast labels steps path)
    (hfield : labels[h]? = some (.field name)) (hmoved : labels[child]? = some (.moved name))
    (hcount : path.count h ≤ depth) : (h :: path).count child ≤ depth := by
  have hne : h ≠ child := by
    rintro rfl
    cases hfield.symm.trans hmoved
  rw [List.count_cons_of_ne hne]
  exact (hpaths.moved hmoved hfield).trans hcount

end Abreast

/-- A box that is reached along a path stands for a label: it has the label, or it is a moved value
that is not cut off and leads to a box that has it. -/
inductive Meets (labels : List (Label ι)) (arena : Arena) (depth : Nat) (path : List Handle)
    (h : Handle) (steps : List (Label ι)) (label : Label ι) : Prop where
  | direct : labels[h]? = some label → Abreast labels steps path →
      Meets labels arena depth path h steps label
  | moved (first) : arena.get? h = some (.eq first) → path.count h ≤ depth →
      labels[first]? = some label → Abreast labels steps (h :: path) →
      Meets labels arena depth path h steps label

/-- A child that stands for a label is met as such. -/
theorem Stands.meets (hstands : Stands labels arena h child other)
    (hlayout : Layout plan labels arena fields) (hpaths : Abreast labels steps path)
    (hlabel : labels[h]? = some label) (hproper : label.Proper) (hcount : path.count h ≤ depth) :
    Meets labels arena depth (h :: path) child (label :: steps) other := by
  cases hstands with
  | direct hother => exact .direct hother (hpaths.enter hlayout hlabel hproper)
  | moved name first hfield hmoved hget hother =>
      cases hlabel.symm.trans hfield
      exact .moved first hget (hpaths.count_moved_le hfield hmoved hcount) hother
        (hpaths.enter_moved hlayout hfield hmoved)

/-! ## The unfoldings agree -/

/-- The values of the children of a choice are what the choice spells. -/
theorem Spells.mem_children_iff {others : Set (Label ι)} {children : List Handle}
    {strings : Handle → Set String} {text : String} (hform : FormOf plan label (.choice others))
    (hcount : steps.count label ≤ depth)
    (hsound : ∀ child ∈ children, ∃ other ∈ others, Stands labels arena h child other)
    (hcomplete : ∀ other ∈ others, ∃ child ∈ children, Stands labels arena h child other)
    (hparts : ∀ child ∈ children, ∀ other ∈ others, Stands labels arena h child other →
      (text ∈ strings child ↔ Spells plan depth (label :: steps) other text)) :
    (∃ child ∈ children, text ∈ strings child) ↔ Spells plan depth steps label text := by
  rw [Spells.choice_iff hform hcount]
  constructor
  · rintro ⟨child, hchild, htext⟩
    obtain ⟨other, hother, hstands⟩ := hsound child hchild
    exact ⟨other, hother, (hparts child hchild other hother hstands).mp htext⟩
  · rintro ⟨other, hother, hspells⟩
    obtain ⟨child, hchild, hstands⟩ := hcomplete other hother
    exact ⟨child, hchild, (hparts child hchild other hother hstands).mpr hspells⟩

/-- A box without children spells what every solver gives it. -/
theorem Meets.leaf_iff (hmeets : Meets labels arena depth path h steps label)
    (hlayout : Layout plan labels arena fields) (hproper : label.Proper) {strings : Set String}
    {warnings : Nat} {text : String} {term : Term}
    (hunfolds : arena.Unfolds depth path h strings warnings) (hget : arena.get? h = some term)
    (hleaf : term.isCompound = false) : text ∈ strings ↔ Spells plan depth steps label text := by
  rw [(hunfolds.deterministic (.leaf hget hleaf)).1]
  cases hmeets with
  | direct hlabel hpaths =>
      obtain ⟨form, hform, hrealizes⟩ := hlayout.realizes hlabel hproper
      cases hrealizes with
      | leaf _ hother =>
          cases hget.symm.trans hother
          exact (Spells.leaf_iff hform).symm
      | choice _ _ hother hcompound =>
          cases hget.symm.trans hother
          cases hleaf.symm.trans hcompound
      | join _ _ _ _ hother =>
          cases hget.symm.trans hother
          cases hleaf
  | moved first hother =>
      cases hget.symm.trans hother
      cases hleaf

/-- What a box unfolds to is what its label spells. -/
theorem Layout.unfolds_iff_spells (hlayout : Layout plan labels arena fields) {strings : Set String}
    {warnings : Nat} {text : String} (hunfolds : arena.Unfolds depth path h strings warnings)
    (hmeets : Meets labels arena depth path h steps label) (hproper : label.Proper) :
    text ∈ strings ↔ Spells plan depth steps label text := by
  -- The path of labels grows with the path of boxes, and a count on one is a count on the other.
  induction hunfolds generalizing steps label text with
  | top path h hget => exact hmeets.leaf_iff hlayout hproper (.top path h hget) hget rfl
  | bottom path h hget => exact hmeets.leaf_iff hlayout hproper (.bottom path h hget) hget rfl
  | terminal path h value hget =>
      exact hmeets.leaf_iff hlayout hproper (.terminal path h value hget) hget rfl
  | parameter path h hget =>
      exact hmeets.leaf_iff hlayout hproper (.parameter path h hget) hget rfl
  | call path h callee hget =>
      exact hmeets.leaf_iff hlayout hproper (.call path h callee hget) hget rfl
  | pending path h hget => exact hmeets.leaf_iff hlayout hproper (.pending path h hget) hget rfl
  | cut path h term hget hcompound hcount =>
      cases hmeets with
      | moved _ _ hle => omega
      | direct hlabel hpaths =>
          obtain ⟨form, hform, hrealizes⟩ := hlayout.realizes hlabel hproper
          rw [hpaths.count hlabel hproper] at hcount
          exact (Spells.cut_iff hform (hrealizes.ne_leaf hget hcompound) hcount).symm
  | union path h items strings warnings hget hcount _ ih =>
      cases hmeets with
      | moved first hother => cases hget.symm.trans hother
      | direct hlabel hpaths =>
          obtain ⟨others, hform, hothers, hsound, hcomplete⟩ :=
            hlayout.exists_choice hlabel hproper hget rfl (by simp)
          rw [Set.mem_iUnion₂]
          simp only [exists_prop]
          exact Spells.mem_children_iff hform (hpaths.count hlabel hproper ▸ hcount) hsound
            hcomplete fun child hchild other hother hstands => ih child hchild
              (hstands.meets hlayout hpaths hlabel hproper hcount) (hothers other hother)
  | concat path h left right _ _ _ _ hget hcount _ _ ihleft ihright =>
      cases hmeets with
      | moved first hother => cases hget.symm.trans hother
      | direct hlabel hpaths =>
          obtain ⟨form, hform, hrealizes⟩ := hlayout.realizes hlabel hproper
          cases hrealizes with
          | leaf _ hother hleaf =>
              cases hget.symm.trans hother
              cases hleaf
          | choice _ _ hother _ hconcat =>
              cases hget.symm.trans hother
              exact absurd rfl (hconcat left right)
          | join _ _ first second hother hleft hright hfirst hsecond =>
              cases hget.symm.trans hother
              have hboth := hpaths.enter hlayout hlabel hproper
              rw [Set.mem_image2, Spells.join_iff hform (hpaths.count hlabel hproper ▸ hcount)]
              simp only [ihleft (.direct hleft hboth) hfirst,
                ihright (.direct hright hboth) hsecond]
  | eq path h inner strings _ hget hcount _ ih =>
      cases hmeets with
      | moved first hother _ hlabel hpaths =>
          -- The labels do not see a moved value: their path is the same behind it.
          cases hget.symm.trans hother
          exact ih (.direct hlabel hpaths) hproper
      | direct hlabel hpaths =>
          obtain ⟨others, hform, hothers, hsound, hcomplete⟩ :=
            hlayout.exists_choice hlabel hproper hget rfl (by simp)
          have hinner : (∃ child ∈ [inner], text ∈ strings) ↔
              Spells plan depth steps label text := by
            refine Spells.mem_children_iff hform (hpaths.count hlabel hproper ▸ hcount) hsound
              hcomplete fun child hchild other hother hstands => ?_
            cases List.mem_singleton.mp hchild
            exact ih (hstands.meets hlayout hpaths hlabel hproper hcount) (hothers other hother)
          simpa using hinner

end

/-! ## Descents that end -/

/-- From a label every descent ends when it does from a box that stands for the label. -/
theorem Layout.ends_of_grounded (hlayout : Layout plan labels arena fields) {h : Handle}
    (hground : arena.Grounded (· ≠ .pending) h) (hproper : label.Proper) :
    (labels[h]? = some label → Ends plan label) ∧
      ∀ first, arena.get? h = some (.eq first) → labels[first]? = some label →
        Ends plan label := by
  induction hground generalizing label with
  | intro h term hget hterm _ ih =>
      refine ⟨fun hlabel => ?_, fun first hother hfirst => ?_⟩
      · obtain ⟨form, hform, hrealizes⟩ := hlayout.realizes hlabel hproper
        cases hrealizes with
        | leaf _ hother =>
            cases hget.symm.trans hother
            exact .leaf label term hform hterm
        | choice _ others hother _ _ hothers _ hcomplete =>
            cases hget.symm.trans hother
            refine .choice label others hform fun other hmem => ?_
            obtain ⟨child, hchild, hstands⟩ := hcomplete other hmem
            obtain ⟨hdirect, hmoved⟩ := ih child hchild (hothers other hmem)
            cases hstands with
            | direct hother => exact hdirect hother
            | moved name first _ _ hfirst hother => exact hmoved first hfirst hother
        | join a b left right hother ha hb hleft hright =>
            cases hget.symm.trans hother
            exact .join label left right hform ((ih a (by simp [Term.children]) hleft).1 ha)
              ((ih b (by simp [Term.children]) hright).1 hb)
      · cases hget.symm.trans hother
        exact (ih first (by simp [Term.children]) hproper).1 hfirst

/-- From a box every descent ends when it does from its label. -/
theorem Layout.grounded_of_ends (hlayout : Layout plan labels arena fields) {h : Handle}
    (hends : Ends plan label) (hlabel : labels[h]? = some label) (hproper : label.Proper) :
    arena.Grounded (· ≠ .pending) h := by
  induction hends generalizing h with
  | leaf label term hform hterm =>
      obtain ⟨form, hother, hrealizes⟩ := hlayout.realizes hlabel hproper
      cases hform.unique hother
      cases hrealizes with
      | leaf _ hget hleaf =>
          refine .intro h term hget hterm ?_
          simp [Term.children_eq_nil_of_not_compound hleaf]
  | choice label others hform _ ih =>
      obtain ⟨form, hother, hrealizes⟩ := hlayout.realizes hlabel hproper
      cases hform.unique hother
      cases hrealizes with
      | choice term _ hget hcompound _ hothers hsound _ =>
          refine .intro h term hget ?_ fun child hchild => ?_
          · rintro rfl
            cases hcompound
          · obtain ⟨other, hmem, hstands⟩ := hsound child hchild
            cases hstands with
            | direct hother => exact ih other hmem hother (hothers other hmem)
            | moved name first _ _ hfirst hother =>
                refine .intro child _ hfirst (by simp) fun inner hinner => ?_
                cases List.mem_singleton.mp hinner
                exact ih other hmem hother (hothers other hmem)
  | join label left right hform _ _ ihleft ihright =>
      obtain ⟨form, hother, hrealizes⟩ := hlayout.realizes hlabel hproper
      cases hform.unique hother
      cases hrealizes with
      | join a b _ _ hget ha hb hleft hright =>
          refine .intro h _ hget (by simp) fun child hchild => ?_
          rcases List.mem_pair.mp hchild with rfl | rfl
          · exact ihleft ha hleft
          · exact ihright hb hright

/-- Every descent from a box ends exactly when every descent from its label does. -/
theorem Layout.grounded_iff_ends (hlayout : Layout plan labels arena fields) {h : Handle}
    (hlabel : labels[h]? = some label) (hproper : label.Proper) :
    arena.Grounded (· ≠ .pending) h ↔ Ends plan label :=
  ⟨fun hground => (hlayout.ends_of_grounded hground hproper).1 hlabel,
    fun hends => hlayout.grounded_of_ends hends hlabel hproper⟩

end StringReach
