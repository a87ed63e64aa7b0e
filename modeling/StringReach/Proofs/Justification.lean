import StringReach.Proofs.Discovery

/-!
# Descriptors of the methods that are selected

The strings at a reflective call are read twice. Selecting methods puts each string into its plain
spelling and then drops those without literal text; describing the call drops first and then spells.
Both keep what the selection needs, because a class string without literal text is its own plain
spelling (`Spelling.plain_class_of_is_unconstrained`). So for every method that is selected there is
a descriptor with a target that fits it (`selected_method_described`).
-/

namespace StringReach

/-! ## Strings without literal text -/

/-- Markers alone have no slash, and do not begin with a letter. -/
theorem Wildcard.plain_of_pieces {text : List Char}
    (hpieces : (pieces text).all List.isEmpty = true) :
    (∀ c ∈ text, c ≠ '/') ∧ text.head? ≠ some 'L' := by
  induction text using pieces.induct with
  | case1 => simp
  | case2 rest ih =>
      rw [pieces, List.all_cons, Bool.and_eq_true] at hpieces
      obtain ⟨hslash, _⟩ := ih hpieces.2
      refine ⟨?_, by simp⟩
      simpa using hslash
  | case3 c rest _ hrest _ => simp [pieces, hrest] at hpieces
  | case4 c rest _ first others hrest _ => simp [pieces, hrest] at hpieces

/-- A class string without literal text is its own plain spelling. -/
theorem Spelling.plain_class_of_is_unconstrained {text : String}
    (htext : Wildcard.isUnconstrained text = true) : plainClass text = text := by
  obtain ⟨hslash, hletter⟩ := Wildcard.plain_of_pieces htext
  have hdotted : dotted text = text.toList := by
    refine (List.map_congr_left fun c hc => ?_).trans (List.map_id _)
    exact if_neg (hslash c hc)
  unfold plainClass
  rw [hdotted]
  split
  · rename_i inner heq
    simp [heq] at hletter
  · exact String.ofList_toList

/-! ## What a selected method was selected by -/

/-- A method is selected by a class string, and a method call also by a member string. -/
theorem Program.strings_of_mem_targets {program : Program} {engine : Engine} {results : Results}
    {site : Point} {kind : ReflectionKind} {targets : List Method} {method : Method}
    (htargets : program.targetsOf engine results site kind = .ok targets)
    (hmethod : method ∈ targets) :
    (∃ cls ∈ results.stringsAt (site.operand Point.classSlot), ∃ pattern,
      Pattern.compile engine (Spelling.plainClass cls) = .ok pattern ∧
      Wildcard.isUnconstrained (Spelling.plainClass cls) = false ∧
      pattern.accepts method.className = true) ∧
    (kind = .methodCall → ∃ member ∈ results.stringsAt (site.operand Point.memberSlot), ∃ pattern,
      Pattern.compile engine (Spelling.plainName member) = .ok pattern ∧
      pattern.accepts method.simpleName = true) := by
  obtain ⟨classes, members, hclasses, hmembers, rfl⟩ := targets_eq_ok_iff.mp htargets
  have hselects := (List.mem_filter.mp hmethod).2
  unfold ReflectionKind.selects at hselects
  rw [Bool.and_eq_true, List.any_eq_true] at hselects
  obtain ⟨⟨pattern, hpattern, haccepts⟩, hkind⟩ := hselects
  obtain ⟨cls, hcls, hcompile, hconstrained⟩ := (Results.mem_patterns_at hclasses).mp hpattern
  refine ⟨⟨cls, hcls, pattern, hcompile, hconstrained, haccepts⟩, ?_⟩
  rintro rfl
  obtain ⟨pattern, hpattern, haccepts⟩ := List.any_eq_true.mp hkind
  obtain ⟨member, hmember, hcompile, _⟩ := (Results.mem_patterns_at hmembers).mp hpattern
  exact ⟨member, hmember, pattern, hcompile, haccepts⟩

/-! ## What a call is described by -/

/-- A class string with literal text gives a target for every choice of a member. -/
theorem Target.exists_of_strings? (kind : ReflectionKind) {cls : String} (member : Option String)
    (hcls : Wildcard.isUnconstrained cls = false) :
    ∃ target, ofStrings? kind cls member = some target ∧
      target.cls = some (Spelling.plainClass cls) ∧
      (kind = .methodCall → target.name = member.map Spelling.plainName) := by
  unfold ofStrings?
  rw [hcls]
  refine ⟨_, rfl, rfl, ?_⟩
  rintro rfl
  rfl

namespace Descriptor

variable {results : Results} {site : Point} {kind : ReflectionKind}

/-- There is always something to pair a class string with. -/
theorem exists_member_choice (results : Results) (site : Point) (kind : ReflectionKind) :
    ∃ member, member ∈ memberChoices results site kind := by
  unfold memberChoices
  split
  · exact ⟨_, List.mem_cons_self⟩
  · exact ⟨none, List.mem_singleton_self none⟩

/-- A member string of a method call is one of the choices. -/
theorem some_mem_member_choices {member : String} (hkind : kind.hasMember = true)
    (hmember : member ∈ results.stringsAt (site.operand Point.memberSlot)) :
    some member ∈ memberChoices results site kind := by
  unfold memberChoices
  split
  · rename_i first rest _ hstrings
    rw [hstrings] at hmember
    exact List.mem_map_of_mem hmember
  · rename_i hnone
    cases hstrings : results.stringsAt (site.operand Point.memberSlot) with
    | nil => simp [hstrings] at hmember
    | cons first rest => exact absurd hstrings (hnone first rest hkind)

/-- What a class string and a choice of a member mean is a target of the site. -/
theorem mem_targets_at {cls : String} {member : Option String} {target : Target}
    (hcls : cls ∈ results.stringsAt (site.operand Point.classSlot))
    (hmember : member ∈ memberChoices results site kind)
    (htarget : Target.ofStrings? kind cls member = some target) :
    target ∈ targetsAt results site kind :=
  List.mem_flatMap.mpr ⟨cls, hcls, List.mem_filterMap.mpr ⟨member, hmember, htarget⟩⟩

/-- A site with a target has a descriptor with that target. -/
theorem exists_descriptor {sites : Std.ExtTreeMap Point ReflectionKind} {target : Target}
    (hsite : sites[site]? = some kind) (htarget : target ∈ targetsAt results site kind) :
    ∃ descriptor ∈ ofSites sites results, descriptor.site = site ∧ descriptor.kind = kind ∧
      target ∈ descriptor.targets := by
  have hsome : (targetsAt results site kind).isEmpty = false :=
    List.isEmpty_eq_false_iff_exists_mem.mpr ⟨target, htarget⟩
  have hdescriptor : ofSite? results site kind = some
      { site, kind, targets := .ofList (targetsAt results site kind)
        warnings := warningsAt results site } := by
    simp [ofSite?, hsome]
  have hmem := Std.ExtTreeMap.mem_toList_iff_getElem?_eq_some.mpr hsite
  refine ⟨_, List.mem_filterMap.mpr ⟨(site, kind), hmem, hdescriptor⟩, rfl, rfl, ?_⟩
  exact Std.ExtTreeSet.mem_ofList.mpr (List.contains_iff_mem.mpr htarget)

/-- A descriptor describes that a reflective call reaches a method: it belongs to the call, and one
of its targets, read as patterns, fits the class of the method and, when a method is called, its
simple name. -/
structure Describes (descriptor : Descriptor) (engine : Engine) (site : Point)
    (kind : ReflectionKind) (method : Method) : Prop where
  atSite : descriptor.site = site
  ofKind : descriptor.kind = kind
  fits : ∃ target ∈ descriptor.targets,
    (∃ cls pattern, target.cls = some cls ∧ Pattern.compile engine cls = .ok pattern ∧
      pattern.accepts method.className = true) ∧
    (kind = .methodCall → ∃ name pattern, target.name = some name ∧
      Pattern.compile engine name = .ok pattern ∧ pattern.accepts method.simpleName = true)

end Descriptor

/-- Whatever the results are, in order or not, for every method that they select at a reflective
call there is a descriptor of the call with a target that fits the method. -/
theorem selected_method_described (program : Program) (engine : Engine)
    (sites : Std.ExtTreeMap Point ReflectionKind) (results : Results) (site : Point)
    (kind : ReflectionKind) (targets : List Method) (method : Method)
    (hsite : sites[site]? = some kind)
    (htargets : program.targetsOf engine results site kind = .ok targets)
    (hmethod : method ∈ targets) :
    ∃ descriptor ∈ Descriptor.ofSites sites results,
      descriptor.Describes engine site kind method := by
  obtain ⟨⟨cls, hcls, clsPattern, hcompile, hconstrained, hclass⟩, hmember⟩ :=
    Program.strings_of_mem_targets htargets hmethod
  have hkept : Wildcard.isUnconstrained cls = false := by
    by_contra hdropped
    rw [Bool.not_eq_false] at hdropped
    rw [Spelling.plain_class_of_is_unconstrained hdropped, hdropped] at hconstrained
    cases hconstrained
  obtain ⟨choice, hchoice, hname⟩ : ∃ choice ∈ Descriptor.memberChoices results site kind,
      kind = .methodCall → ∃ member pattern, choice = some member ∧
        Pattern.compile engine (Spelling.plainName member) = .ok pattern ∧
        pattern.accepts method.simpleName = true := by
    by_cases hkind : kind = .methodCall
    · obtain ⟨member, hstring, pattern, hread, haccepts⟩ := hmember hkind
      refine ⟨some member, Descriptor.some_mem_member_choices ?_ hstring, fun _ => ?_⟩
      · rw [hkind]
        rfl
      · exact ⟨member, pattern, rfl, hread, haccepts⟩
    · obtain ⟨choice, hchoice⟩ := Descriptor.exists_member_choice results site kind
      exact ⟨choice, hchoice, fun hcall => absurd hcall hkind⟩
  obtain ⟨target, htarget, hcls', hname'⟩ := Target.exists_of_strings? kind choice hkept
  obtain ⟨descriptor, hdescriptor, hsame, hkind, hlisted⟩ :=
    Descriptor.exists_descriptor hsite (Descriptor.mem_targets_at hcls hchoice htarget)
  refine ⟨descriptor, hdescriptor, hsame, hkind, target, hlisted,
    ⟨_, clsPattern, hcls', hcompile, hclass⟩, ?_⟩
  intro hcall
  obtain ⟨member, pattern, rfl, hread, haccepts⟩ := hname hcall
  exact ⟨_, pattern, hname' hcall, hread, haccepts⟩

/-- A reflective call. -/
def pluginSite : Point where
  method := "Main.run"
  statement := 2

/-- Strings at the operands of the call: in either place one that says nothing, and one that is
known in part. The class is wrapped and spelt with a slash. -/
def pluginResults : Results where
  iteration := 0
  points := [
    { point := pluginSite.operand Point.classSlot
      resolution :=
        { solution := { strings := .ofList ["(.*)", "Lapp/Plug(.*);"] }
          recursive := false, strategy := .acyclic } },
    { point := pluginSite.operand Point.memberSlot
      resolution :=
        { solution := { strings := .ofList ["(.*)", "lo(.*)"] }
          recursive := false, strategy := .acyclic } }]

/-- The sites of the call alone. -/
def pluginSites : Std.ExtTreeMap Point ReflectionKind :=
  Std.ExtTreeMap.empty.insert pluginSite .methodCall

/-- A program with a method that the strings select. -/
def selectedProgram : Program where
  methods := [{ name := "app.Plugin.load" }, { name := "app.Plugin.stop" }]

/-- The small engine selects the first of the two methods, and a descriptor fits it. -/
theorem selected_method_described_plugin :
    pluginSites[pluginSite]? = some .methodCall ∧
      selectedProgram.targetsOf .standard pluginResults pluginSite .methodCall =
        .ok [{ name := "app.Plugin.load" }] ∧
      ∃ descriptor ∈ Descriptor.ofSites pluginSites pluginResults,
        descriptor.Describes .standard pluginSite .methodCall { name := "app.Plugin.load" } := by
  have hsite : pluginSites[pluginSite]? = some .methodCall := Std.ExtTreeMap.getElem?_insert_self
  have htargets : selectedProgram.targetsOf .standard pluginResults pluginSite .methodCall =
      .ok [{ name := "app.Plugin.load" }] := by decide +kernel
  exact ⟨hsite, htargets, selected_method_described selectedProgram .standard pluginSites
    pluginResults pluginSite .methodCall _ _ hsite htargets (by simp)⟩

end StringReach
