import Mathlib.Data.List.Forall2
import StringReach.Analysis.Encoding

/-!
# Reading gives back what was written

Each part of a program is written as a record of all of its fields, and a field may be omitted when
it has its default. A field that has to be there is found in such a record (`required_written`), and
an optional one has its value whether it was written or not (`defaulted_written`). From the two,
statements, methods and programs are read back however they were written (`of_data?_of_written_as`).
The parts of a report are written in full and are read back field by field.
-/

namespace StringReach

/-! ## Records with omitted fields -/

namespace Data

/-- A record without the fields of some names. -/
def without (omitted : List String) : Data → Data
  | record entries =>
      record (entries.filter fun entry => !omitted.any fun name => entry.1.isName name)
  | data => data

variable {names omitted : List String} {fields : List (String × Data)}

/-- Omitting fields of a record leaves the others. -/
theorem without_named (omitted : List String) (fields : List (String × Data)) :
    (named fields).without omitted = named (fields.filter fun field => field.1 ∉ omitted) := by
  have hkeep : ((fun entry : Data × Data => !omitted.any fun name => entry.1.isName name) ∘
      fun field : String × Data => (text field.1, field.2)) =
        fun field => decide (field.1 ∉ omitted) := by
    funext field
    rw [Bool.eq_iff_iff]
    simp [isName, text?, List.forall_mem_ne]
  rw [named, without, named, List.filter_map, hkeep]

/-- Omitting nothing changes nothing. -/
theorem without_nil (data : Data) : data.without [] = data := by
  cases data <;> simp [without]

/-- A record has a value when its fields have. -/
theorem is_readable_named (fields : List (String × Data)) :
    (named fields).isReadable = fields.all fun field => field.2.isReadable := by
  rw [named, isReadable]
  induction fields with
  | nil => rfl
  | cons field rest ih => simp [haveReadable, isReadable, ih]

/-- The tag of a record is found before its other fields. -/
theorem tagged?_named {tagName : String} (tag : String)
    (hfields : ∀ field ∈ fields, field.1 ≠ tagName) :
    (named ((tagName, .text tag) :: fields)).tagged? tagName = some (tag, named fields) := by
  have hother : ∀ entry ∈ fields.map (fun field => (text field.1, field.2)),
      entry.1.isName tagName = false := by
    intro entry hmem
    obtain ⟨field, hfield, rfl⟩ := List.mem_map.mp hmem
    simpa [isName, text?] using hfields field hfield
  have htag : (text tagName).isName tagName = true := by simp [isName, text?]
  have hnone : (fields.map fun field => (text field.1, field.2)).filter
      (fun entry => entry.1.isName tagName) = [] :=
    List.filter_eq_nil_iff.mpr fun entry hmem => by simp [hother entry hmem]
  have hall : (fields.map fun field => (text field.1, field.2)).filter
      (fun entry => !entry.1.isName tagName) = fields.map fun field => (text field.1, field.2) :=
    List.filter_eq_self.mpr fun entry hmem => by simp [hother entry hmem]
  simp [named, tagged?, htag, hnone, hall]

/-- Keys that are texts are the names of the fields. -/
theorem map_field_name? (names : List String) (fields : List (String × Data)) :
    (fields.map fun field => (text field.1, field.2)).mapM
      (fun entry => (entry.1.fieldName? names).map (·, entry.2)) = some fields := by
  induction fields with
  | nil => rfl
  | cons field rest ih =>
      rw [List.map_cons, List.mapM_cons, ih]
      rfl

/-- The fields of a record are found when their names are known and different. -/
theorem fields?_named (hknown : ∀ field ∈ fields, field.1 ∈ names)
    (hdistinct : (fields.map (·.1)).Nodup) :
    (named fields).fields? names = some { values := fields, positional := false } := by
  have hall : fields.filter (fun field => names.contains field.1) = fields :=
    List.filter_eq_self.mpr fun field hmem => List.contains_iff_mem.mpr (hknown field hmem)
  rw [named, fields?]
  show ((fields.map fun field => (text field.1, field.2)).mapM
    (fun entry => (entry.1.fieldName? names).map (·, entry.2)) >>= _) = _
  rw [map_field_name?]
  show (if ((fields.filter fun field => names.contains field.1).map (·.1)).Nodup then
    some (FieldValues.mk (fields.filter fun field => names.contains field.1) false) else none) = _
  rw [hall, if_pos hdistinct]

end Data

/-- The names of the optional fields that have their default, given which of them have it. -/
def defaultNames (flags : List (String × Bool)) : List String :=
  (flags.filter (·.2)).map (·.1)

/-- The names are those that are flagged. -/
theorem mem_default_names {flags : List (String × Bool)} {name : String} :
    name ∈ defaultNames flags ↔ (name, true) ∈ flags := by
  simp [defaultNames]

namespace FieldValues

variable {α : Type} {flags : List (String × Bool)} {fields : List (String × Data)}
  {omitted : List String} {name : String} {data : Data} {value default : α}
  {value? : Data → Option α}

/-- The fields of a record from which some may be omitted. -/
def written (fields : List (String × Data)) (omitted : List String) : FieldValues where
  values := fields.filter fun field => field.1 ∉ omitted
  positional := false

/-- A field is found unless it is omitted. -/
theorem get?_written (fields : List (String × Data)) (omitted : List String) (name : String) :
    (written fields omitted).get? name = if name ∈ omitted then none else fields.lookup name := by
  rw [get?, written]
  induction fields with
  | nil => simp
  | cons field rest ih =>
      obtain ⟨key, item⟩ := field
      rw [List.filter_cons]
      by_cases heq : name = key
      · subst heq
        by_cases hmem : name ∈ omitted
        · simpa [hmem] using ih
        · simp [hmem]
      · have hne : (name == key) = false := by simpa using heq
        split <;> simpa [List.lookup_cons, hne] using ih

/-- A field that has no default is read. -/
theorem required_written (homitted : omitted ⊆ defaultNames flags)
    (hname : (name, true) ∉ flags) (hfield : fields.lookup name = some data)
    (hvalue : value? data = some value) :
    (written fields omitted).required name value? = some value := by
  have hkept : name ∉ omitted := fun hmem => hname (mem_default_names.mp (homitted hmem))
  rw [required, get?_written, if_neg hkept, hfield]
  exact hvalue

/-- A field that has a default is read, or was omitted and has it. -/
theorem defaulted_written (homitted : omitted ⊆ defaultNames flags)
    (hname : (name, true) ∈ flags → value = default) (hfield : fields.lookup name = some data)
    (hvalue : value? data = some value) :
    (written fields omitted).defaulted name value? default = some value := by
  rw [defaulted, get?_written]
  by_cases hmem : name ∈ omitted
  · rw [if_pos hmem, hname (mem_default_names.mp (homitted hmem))]
  · rw [if_neg hmem, hfield]
    exact hvalue

end FieldValues

/-- The fields of a record are found whether some are omitted or not. -/
theorem Data.fields?_without {names : List String} {fields : List (String × Data)}
    (omitted : List String) (hknown : ∀ field ∈ fields, field.1 ∈ names)
    (hdistinct : (fields.map (·.1)).Nodup) :
    ((named fields).without omitted).fields? names = some (.written fields omitted) := by
  rw [without_named]
  refine fields?_named ?_ ?_
  · exact fun field hmem => hknown field (List.mem_of_mem_filter hmem)
  · exact hdistinct.sublist (List.filter_sublist.map _)

/-! ## Records of all fields -/

/-- The fields of a record are found. -/
theorem Data.fields?_full {names : List String} {fields : List (String × Data)}
    (hknown : ∀ field ∈ fields, field.1 ∈ names) (hdistinct : (fields.map (·.1)).Nodup) :
    (named fields).fields? names = some (.written fields []) := by
  rw [← fields?_without [] hknown hdistinct, without_nil]

namespace FieldValues

variable {α : Type} {fields : List (String × Data)} {name : String} {data : Data}
  {value? : Data → Option α}

/-- A field is read. -/
theorem required_full {value : α} (hfield : fields.lookup name = some data)
    (hvalue : value? data = some value) :
    (written fields []).required name value? = some value :=
  required_written (List.nil_subset (defaultNames [])) List.not_mem_nil hfield hvalue

/-- A field that may be null is read. -/
theorem optional_full {value : Option α} (hfield : fields.lookup name = some data)
    (hvalue : data.nullable? value? = some value) :
    (written fields []).optional name value? = some value := by
  rw [optional, get?_written, if_neg List.not_mem_nil, hfield]
  exact hvalue

end FieldValues

/-! ## Scalars and lists -/

namespace Data

variable {α : Type} {item? : Data → Option α}

/-- A list is read back when its items are. -/
theorem list_of?_of_forall₂ {values : List α} {items : List Data}
    (hitems : List.Forall₂ (fun value item => item? item = some value) values items) :
    listOf? item? (.list items) = some values := by
  show items.mapM item? = some values
  induction hitems with
  | nil => rfl
  | cons hfirst _ ih =>
      rw [List.mapM_cons, hfirst, ih]
      rfl

/-- A list is read back when every value of its kind is. -/
theorem list_of?_map (toData : α → Data) (hround : ∀ value, item? (toData value) = some value)
    (values : List α) : listOf? item? (.list (values.map toData)) = some values :=
  list_of?_of_forall₂ (List.forall₂_map_right_iff.mpr (List.forall₂_same.mpr fun value _ =>
    hround value))

/-- A list of texts is read back. -/
theorem list_of?_texts (values : List String) : listOf? text? (texts values) = some values :=
  list_of?_map text (fun _ => rfl) values

/-- A text that may be absent is read back. -/
theorem nullable?_of_option (value : Option String) :
    nullable? text? (ofOption text value) = some value := by
  cases value <;> rfl

/-- A list of texts has a value. -/
@[simp] theorem is_readable_texts (values : List String) : (texts values).isReadable = true := by
  rw [texts, isReadable]
  induction values with
  | nil => rfl
  | cons value rest ih => simpa [areReadable, isReadable] using ih

/-- A text that may be absent has a value. -/
@[simp] theorem is_readable_of_option (value : Option String) :
    (ofOption text value).isReadable = true := by
  cases value <;> rfl

/-- A set of texts is read back. -/
theorem text_set?_text_set (items : Std.ExtTreeSet String) :
    textSet? (textSet items) = some items := by
  rw [textSet?, textSet, list_of?_texts]
  refine congrArg some (Std.ExtTreeSet.ext_mem fun text => ?_)
  rw [Std.ExtTreeSet.mem_ofList, List.contains_iff_mem, Std.ExtTreeSet.mem_toList]

end Data

/-- A step that succeeds is followed by the next. -/
theorem bind_eq_some {α β : Type} {first : Option α} {next : α → Option β} {value : α} {result : β}
    (hfirst : first = some value) (hnext : next value = some result) :
    first >>= next = some result := by
  rw [hfirst]
  exact hnext

/-! ## Programs -/

open FieldValues

namespace Statement

/-- The fields of a statement that have their default. -/
def defaults : Statement → List String
  | append _ _ dest => defaultNames [("dest", dest.isNone)]
  | invoke _ dest args => defaultNames [("dest", dest.isNone), ("args", args.isEmpty)]
  | reflect _ _ member => defaultNames [("member", member.isNone)]
  | _ => defaultNames []

/-- Data of a statement: its record, from which fields that have their default may be omitted. -/
def WrittenAs (statement : Statement) (data : Data) : Prop :=
  ∃ omitted, omitted ⊆ statement.defaults ∧ data = statement.toData.without omitted

/-- The tag of a statement says what its fields are. -/
theorem of_data?_without {op : String} {fields : List (String × Data)} {omitted : List String}
    {flags : List (String × Bool)} (homitted : omitted ⊆ defaultNames flags)
    (hop : ("op", true) ∉ flags) (hfields : ∀ field ∈ fields, field.1 ≠ "op")
    (hreadable : ∀ field ∈ fields, field.2.isReadable = true) :
    ofData? ((Data.named (("op", .text op) :: fields)).without omitted) =
      ofTagged? op ((Data.named fields).without omitted) := by
  have hkept : "op" ∉ omitted := fun hmem => hop (mem_default_names.mp (homitted hmem))
  have hrest : (("op", Data.text op) :: fields).filter (fun field => field.1 ∉ omitted) =
      ("op", .text op) :: fields.filter (fun field => field.1 ∉ omitted) := by
    simp [hkept]
  have hall : (Data.named (("op", .text op) ::
      fields.filter (fun field => field.1 ∉ omitted))).isReadable = true := by
    rw [Data.is_readable_named, List.all_eq_true]
    intro field hmem
    rcases List.mem_cons.mp hmem with rfl | hmem
    · rfl
    · exact hreadable field (List.mem_of_mem_filter hmem)
  rw [Data.without_named, hrest, ofData?, if_pos hall, Data.tagged?_named op fun field hmem =>
    hfields field (List.mem_of_mem_filter hmem), Data.without_named]
  rfl

/-- A statement is read back however it was written. -/
theorem of_data?_of_written_as {statement : Statement} {data : Data}
    (hwritten : statement.WrittenAs data) : ofData? data = some statement := by
  obtain ⟨omitted, homitted, rfl⟩ := hwritten
  cases statement with
  | const | assign | concat | phi | param | unknown | storeField | loadField =>
      -- These statements have no field that could be omitted.
      obtain rfl := List.subset_nil.mp homitted
      rw [toData, of_data?_without homitted (by simp) (by simp) (by simp [Data.isReadable])]
      simp [ofTagged?, Data.fields?_without, required, get?_written, Data.text?,
        Data.list_of?_texts, List.lookup_cons]
  | append target value dest =>
      refine (of_data?_without homitted (by simp) (by simp) (by simp [Data.isReadable])).trans ?_
      refine bind_eq_some (Data.fields?_without omitted (by simp) (by simp)) ?_
      refine bind_eq_some (required_written homitted (by simp) rfl rfl) ?_
      refine bind_eq_some (required_written homitted (by simp) rfl rfl) ?_
      exact bind_eq_some
        (defaulted_written homitted (by simp) rfl (Data.nullable?_of_option dest)) rfl
  | invoke callee dest args =>
      refine (of_data?_without homitted (by simp) (by simp) (by simp [Data.isReadable])).trans ?_
      refine bind_eq_some (Data.fields?_without omitted (by simp) (by simp)) ?_
      refine bind_eq_some (required_written homitted (by simp) rfl rfl) ?_
      refine bind_eq_some
        (defaulted_written homitted (by simp) rfl (Data.nullable?_of_option dest)) ?_
      exact bind_eq_some
        (defaulted_written homitted (by simp) rfl (Data.list_of?_texts args)) rfl
  | reflect kind cls member =>
      have hkind : ReflectionKind.ofOperand? kind.toData = some kind := by cases kind <;> rfl
      refine (of_data?_without homitted (by simp) (by simp)
        (by simp [Data.isReadable, ReflectionKind.toData])).trans ?_
      refine bind_eq_some (Data.fields?_without omitted (by simp) (by simp)) ?_
      refine bind_eq_some (required_written homitted (by simp) rfl hkind) ?_
      refine bind_eq_some (required_written homitted (by simp) rfl rfl) ?_
      exact bind_eq_some
        (defaulted_written homitted (by simp) rfl (Data.nullable?_of_option member)) rfl

/-- The record of all fields is one way to write a statement. -/
theorem written_as_to_data (statement : Statement) : statement.WrittenAs statement.toData :=
  ⟨[], List.nil_subset _, (Data.without_nil _).symm⟩

/-- The data of a statement with all fields omitted that have their default. -/
def toShortData (statement : Statement) : Data :=
  statement.toData.without statement.defaults

/-- The record without defaults is one way to write a statement. -/
theorem written_as_to_short_data (statement : Statement) :
    statement.WrittenAs statement.toShortData :=
  ⟨statement.defaults, List.Subset.refl _, rfl⟩

end Statement

namespace Method

/-- The fields of a method that have their default. -/
def defaults (method : Method) : List String :=
  defaultNames [("params", method.params.isEmpty), ("body", method.body.isEmpty)]

/-- Data of a method: its record, with each statement written in any way, from which fields that
have their default may be omitted. -/
def WrittenAs (method : Method) (data : Data) : Prop :=
  ∃ body omitted, List.Forall₂ Statement.WrittenAs method.body body ∧
    omitted ⊆ method.defaults ∧
    data = (Data.named [("name", .text method.name), ("params", .texts method.params),
      ("body", .list body)]).without omitted

/-- A method is read back however it was written. -/
theorem of_data?_of_written_as {method : Method} {data : Data} (hwritten : method.WrittenAs data) :
    ofData? data = some method := by
  obtain ⟨body, omitted, hbody, homitted, rfl⟩ := hwritten
  have hstatements : Data.listOf? Statement.ofData? (.list body) = some method.body :=
    Data.list_of?_of_forall₂ (hbody.imp fun _ _ => Statement.of_data?_of_written_as)
  refine bind_eq_some (Data.fields?_without omitted (by simp) (by simp)) ?_
  refine bind_eq_some (required_written homitted (by simp) rfl rfl) ?_
  refine bind_eq_some
    (defaulted_written homitted (by simp) rfl (Data.list_of?_texts method.params)) ?_
  exact bind_eq_some (defaulted_written homitted (by simp) rfl hstatements) rfl

/-- The record of all fields is one way to write a method. -/
theorem written_as_to_data (method : Method) : method.WrittenAs method.toData := by
  refine ⟨method.body.map Statement.toData, [], ?_, List.nil_subset _, (Data.without_nil _).symm⟩
  exact List.forall₂_map_right_iff.mpr (List.forall₂_same.mpr fun statement _ =>
    statement.written_as_to_data)

/-- The data of a method with all fields omitted that have their default. -/
def toShortData (method : Method) : Data :=
  (Data.named [("name", .text method.name), ("params", .texts method.params),
    ("body", .list (method.body.map Statement.toShortData))]).without method.defaults

/-- The record without defaults is one way to write a method. -/
theorem written_as_to_short_data (method : Method) : method.WrittenAs method.toShortData := by
  refine ⟨_, _, ?_, List.Subset.refl _, rfl⟩
  exact List.forall₂_map_right_iff.mpr (List.forall₂_same.mpr fun statement _ =>
    statement.written_as_to_short_data)

end Method

namespace Program

/-- The fields of a program that have their default. -/
def defaults (program : Program) : List String :=
  defaultNames [("entry_points", program.entryPoints.isEmpty),
    ("methods", program.methods.isEmpty)]

/-- Data of a program: its record, with each method written in any way, from which fields that have
their default may be omitted. -/
def WrittenAs (program : Program) (data : Data) : Prop :=
  ∃ methods omitted, List.Forall₂ Method.WrittenAs program.methods methods ∧
    omitted ⊆ program.defaults ∧
    data = (Data.named [("entry_points", .texts program.entryPoints),
      ("methods", .list methods)]).without omitted

/-- A program is read back however it was written. -/
theorem of_data?_of_written_as {program : Program} {data : Data}
    (hwritten : program.WrittenAs data) : ofData? data = some program := by
  obtain ⟨methods, omitted, hmethods, homitted, rfl⟩ := hwritten
  have hread : Data.listOf? Method.ofData? (.list methods) = some program.methods :=
    Data.list_of?_of_forall₂ (hmethods.imp fun _ _ => Method.of_data?_of_written_as)
  refine bind_eq_some (Data.fields?_without omitted (by simp) (by simp)) ?_
  refine bind_eq_some
    (defaulted_written homitted (by simp) rfl (Data.list_of?_texts program.entryPoints)) ?_
  exact bind_eq_some (defaulted_written homitted (by simp) rfl hread) rfl

/-- The record of all fields is one way to write a program. -/
theorem written_as_to_data (program : Program) : program.WrittenAs program.toData := by
  refine ⟨program.methods.map Method.toData, [], ?_, List.nil_subset _,
    (Data.without_nil _).symm⟩
  exact List.forall₂_map_right_iff.mpr (List.forall₂_same.mpr fun method _ =>
    method.written_as_to_data)

/-- The data of a program with all fields omitted that have their default. -/
def toShortData (program : Program) : Data :=
  (Data.named [("entry_points", .texts program.entryPoints),
    ("methods", .list (program.methods.map Method.toShortData))]).without program.defaults

/-- The record without defaults is one way to write a program. -/
theorem written_as_to_short_data (program : Program) : program.WrittenAs program.toShortData := by
  refine ⟨_, _, ?_, List.Subset.refl _, rfl⟩
  exact List.forall₂_map_right_iff.mpr (List.forall₂_same.mpr fun method _ =>
    method.written_as_to_short_data)

end Program

/-! ## Reports -/

/-- A point is read back. -/
theorem Point.of_data?_to_data (point : Point) : ofData? point.toData = some point := by
  refine bind_eq_some (Data.fields?_full (by simp) (by simp)) ?_
  refine bind_eq_some (required_full rfl rfl) ?_
  refine bind_eq_some (required_full rfl rfl) ?_
  exact bind_eq_some (optional_full rfl (Data.nullable?_of_option point.slot)) rfl

/-- A resolved point is read back. -/
theorem ResolvedPoint.of_data?_to_data (entry : ResolvedPoint) :
    ofData? entry.toData = some entry := by
  have hstrategy : Strategy.ofData? (.text entry.resolution.strategy.name) =
      some entry.resolution.strategy := by
    cases entry.resolution.strategy <;> rfl
  refine bind_eq_some (Data.fields?_full (by simp) (by simp)) ?_
  refine bind_eq_some (required_full rfl (Point.of_data?_to_data entry.point)) ?_
  refine bind_eq_some (required_full rfl (Data.text_set?_text_set _)) ?_
  refine bind_eq_some (required_full rfl rfl) ?_
  refine bind_eq_some (required_full rfl rfl) ?_
  exact bind_eq_some (required_full rfl hstrategy) rfl

/-- A target is read back. -/
theorem Target.of_data?_to_data (target : Target) : ofData? target.toData = some target := by
  refine bind_eq_some (Data.fields?_full (by simp) (by simp)) ?_
  refine bind_eq_some (optional_full rfl (Data.nullable?_of_option target.cls)) ?_
  exact bind_eq_some (optional_full rfl (Data.nullable?_of_option target.name)) rfl

/-- A descriptor is read back. -/
theorem Descriptor.of_data?_to_data (descriptor : Descriptor) :
    ofData? descriptor.toData = some descriptor := by
  have hkind : ReflectionKind.ofData? descriptor.kind.toData = some descriptor.kind := by
    cases descriptor.kind <;> rfl
  have htargets : Std.ExtTreeSet.ofList descriptor.targets.toList = descriptor.targets := by
    refine Std.ExtTreeSet.ext_mem fun target => ?_
    rw [Std.ExtTreeSet.mem_ofList, List.contains_iff_mem, Std.ExtTreeSet.mem_toList]
  refine bind_eq_some (Data.fields?_full (by simp) (by simp)) ?_
  refine bind_eq_some (required_full rfl (Point.of_data?_to_data descriptor.site)) ?_
  refine bind_eq_some (required_full rfl hkind) ?_
  refine bind_eq_some (required_full rfl (Data.list_of?_map _ Target.of_data?_to_data _)) ?_
  refine bind_eq_some (required_full rfl rfl) ?_
  rw [htargets]
  rfl

/-- The data of a point has a value. -/
theorem Point.is_readable_to_data (point : Point) : point.toData.isReadable = true := by
  simp [Point.toData, Data.is_readable_named, Data.isReadable]

/-- An origin is read back. -/
theorem EdgeOrigin.of_data?_to_data (origin : EdgeOrigin) :
    ofData? origin.toData = some origin := by
  cases origin with
  | direct => rfl
  | reflective site =>
      have hreadable : (reflective site).toData.isReadable = true := by
        simp [toData, Data.is_readable_named, Data.isReadable, site.is_readable_to_data]
      rw [ofData?, if_pos hreadable]
      refine bind_eq_some (Data.tagged?_named "reflective" (by simp)) ?_
      refine bind_eq_some (Data.fields?_full (by simp) (by simp)) ?_
      exact bind_eq_some (required_full rfl (Point.of_data?_to_data site)) rfl

/-- An edge is read back. -/
theorem CallEdge.of_data?_to_data (edge : CallEdge) : ofData? edge.toData = some edge := by
  refine bind_eq_some (Data.fields?_full (by simp) (by simp)) ?_
  refine bind_eq_some (required_full rfl rfl) ?_
  refine bind_eq_some (required_full rfl rfl) ?_
  exact bind_eq_some (required_full rfl (EdgeOrigin.of_data?_to_data edge.origin)) rfl

/-- A report is read back. -/
theorem Report.of_data?_to_data (report : Report) : ofData? report.toData = some report := by
  have hconvergence : Convergence.ofData? (.text report.convergence.name) =
      some report.convergence := by
    cases report.convergence <;> rfl
  refine bind_eq_some (Data.fields?_full (by simp) (by simp)) ?_
  refine bind_eq_some (required_full rfl hconvergence) ?_
  refine bind_eq_some (required_full rfl rfl) ?_
  refine bind_eq_some (required_full rfl (Data.list_of?_map _ ResolvedPoint.of_data?_to_data _)) ?_
  refine bind_eq_some (required_full rfl rfl) ?_
  refine bind_eq_some (required_full rfl (Data.list_of?_map _ Descriptor.of_data?_to_data _)) ?_
  exact bind_eq_some (required_full rfl (Data.list_of?_map _ CallEdge.of_data?_to_data _)) rfl

/-- Programs and reports survive their encoding. A program is read back from the record of all its
fields, from the record without the fields that have their default, and from every record between
the two. -/
theorem programs_and_reports_read_back :
    (∀ program : Program, Program.ofData? program.toData = some program ∧
      Program.ofData? program.toShortData = some program ∧
      ∀ data, program.WrittenAs data → Program.ofData? data = some program) ∧
    ∀ report : Report, Report.ofData? report.toData = some report := by
  refine ⟨fun program => ⟨?_, ?_, ?_⟩, Report.of_data?_to_data⟩
  · exact Program.of_data?_of_written_as program.written_as_to_data
  · exact Program.of_data?_of_written_as program.written_as_to_short_data
  · exact fun data => Program.of_data?_of_written_as

/-- A program in which every optional field has its default somewhere. -/
def briefProgram : Program where
  methods := [{
    name := "Main.run"
    body := [.const "c" "Plugin", .append "c" "c" none, .invoke "Main.log" none ["c"],
      .invoke "Main.stop" none [], .reflect .classNewInstance "c" none] }]

/-- Data of that program, with some of the fields omitted that have their default. -/
def briefData : Data :=
  .named [("methods", .list [.named [("name", .text "Main.run"), ("body", .list [
    .named [("op", .text "const"), ("dest", .text "c"), ("value", .text "Plugin")],
    .named [("op", .text "append"), ("target", .text "c"), ("value", .text "c"), ("dest", .null)],
    .named [("op", .text "invoke"), ("callee", .text "Main.log"), ("args", .texts ["c"])],
    .named [("op", .text "invoke"), ("callee", .text "Main.stop"), ("dest", .null)],
    .named [("op", .text "reflect"), ("kind", .text "class_new_instance"),
      ("class", .text "c")]])]])]

/-- The program is read back from the data with some of its defaults. -/
theorem programs_and_reports_read_back_brief :
    briefProgram.WrittenAs briefData ∧ Program.ofData? briefData = some briefProgram := by
  have hwritten : briefProgram.WrittenAs briefData := by
    refine ⟨_, ["entry_points"], .cons ⟨_, ["params"], ?_, by decide, rfl⟩ .nil, by decide, rfl⟩
    exact .cons ⟨[], by decide, rfl⟩ (.cons ⟨[], by decide, rfl⟩ (.cons ⟨["dest"], by decide, rfl⟩
      (.cons ⟨["args"], by decide, rfl⟩ (.cons ⟨["member"], by decide, rfl⟩ .nil))))
  exact ⟨hwritten, (programs_and_reports_read_back.1 briefProgram).2.2 briefData hwritten⟩

end StringReach
