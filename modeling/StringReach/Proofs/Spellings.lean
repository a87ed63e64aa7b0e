import StringReach.Proofs.Justification
import StringReach.Proofs.WildcardsOnly

/-!
# Where the readings of a class string part

The strings for the class of a reflective call are read three times. Selecting methods drops a
string without literal text after it was put into its plain spelling, and describing the call drops
it before. Putting it into the plain spelling can take away all literal text that it had, and then
the call is described by a target that says nothing (`Spelling.Disguised`). A call for a new
instance also reads the string as a name, and a name loses its `L` wherever a semicolon follows,
while a class keeps it unless the semicolon comes last (`Spelling.Tailed`).

In both cases the strings on which the readings part are described by their characters, and on all
others the readings agree.
-/

namespace StringReach

namespace Spelling

variable {cls : String} {c : Char}

/-! ## Slashes -/

/-- A character that is neither a slash nor a dot is kept. -/
theorem dotted_char (hslash : c ≠ '/') (hdot : c ≠ '.') (d : Char) :
    (if d = '/' then '.' else d) = c ↔ d = c := by
  split
  · rename_i heq
    subst heq
    simp [hslash.symm, hdot.symm]
  · rfl

/-- Only slashes and dots appear or disappear in a dotted name. -/
theorem mem_dotted (hslash : c ≠ '/') (hdot : c ≠ '.') : c ∈ dotted cls ↔ c ∈ cls.toList := by
  simp [dotted, dotted_char hslash hdot]

/-- A dotted name begins with the same character, slashes and dots apart. -/
theorem head?_dotted (hslash : c ≠ '/') (hdot : c ≠ '.') :
    (dotted cls).head? = some c ↔ cls.toList.head? = some c := by
  simp [dotted, dotted_char hslash hdot]

/-- A dotted name ends with the same character, slashes and dots apart. -/
theorem get_last?_dotted (hslash : c ≠ '/') (hdot : c ≠ '.') :
    (dotted cls).getLast? = some c ↔ cls.toList.getLast? = some c := by
  simp [dotted, dotted_char hslash hdot]

/-- A name without slashes is kept. -/
theorem dotted_eq (hslash : '/' ∉ cls.toList) : dotted cls = cls.toList := by
  refine (List.map_congr_left fun c hc => ?_).trans (List.map_id _)
  refine if_neg ?_
  rintro rfl
  exact hslash hc

/-! ## Classes without literal text -/

/-- A class string that has literal text, but none in its plain spelling: markers in a row, which
are spelt with a slash or wrapped. -/
def Disguised (cls : String) : Prop :=
  ('/' ∈ cls.toList ∧ ∃ count, dotted cls = Wildcard.markers count) ∨
    ∃ count, dotted cls = 'L' :: (Wildcard.markers count ++ [';'])

/-- The plain spelling of a class is what is wrapped, or all of it. -/
theorem plain_class_cases (cls : String) :
    (∃ inner, dotted cls = 'L' :: (inner ++ [';']) ∧ plainClass cls = String.ofList inner) ∨
    (∀ inner, dotted cls ≠ 'L' :: (inner ++ [';'])) ∧
      plainClass cls = String.ofList (dotted cls) := by
  unfold plainClass
  split
  · rename_i inner hdotted
    split
    · rename_i hlast
      obtain ⟨init, rfl⟩ := List.getLast?_eq_some_iff.mp hlast
      exact .inl ⟨init, hdotted, by simp⟩
    · rename_i hlast
      refine .inr ⟨?_, by rw [hdotted]⟩
      intro other hother
      rw [hdotted] at hother
      rw [(List.cons.inj hother).2] at hlast
      simp at hlast
  · rename_i hopen
    refine .inr ⟨?_, rfl⟩
    intro other hother
    exact hopen _ hother

/-- Markers in a row have no slash, and do not begin with a letter. -/
theorem markers_plain (count : Nat) :
    '/' ∉ Wildcard.markers count ∧ ∀ text, Wildcard.markers count ≠ 'L' :: text := by
  have hpieces : (Wildcard.pieces (Wildcard.markers count)).all List.isEmpty = true := by
    simp [Wildcard.pieces_markers]
  obtain ⟨hslash, hletter⟩ := Wildcard.plain_of_pieces hpieces
  refine ⟨fun hmem => hslash '/' hmem rfl, ?_⟩
  intro text heq
  exact hletter (by rw [heq]; rfl)

/-- A class string has no literal text exactly if its dotted form consists of markers, and no dot
was a slash. -/
theorem is_unconstrained_iff_dotted :
    Wildcard.isUnconstrained cls = true ↔
      '/' ∉ cls.toList ∧ ∃ count, dotted cls = Wildcard.markers count := by
  rw [Wildcard.is_unconstrained_iff]
  constructor
  · intro hmarkers
    obtain ⟨count, hmarkers⟩ := hmarkers
    have hslash : '/' ∉ cls.toList := by
      rw [hmarkers]
      exact (markers_plain count).1
    exact ⟨hslash, count, (dotted_eq hslash).trans hmarkers⟩
  · intro hplain
    obtain ⟨hslash, count, hmarkers⟩ := hplain
    exact ⟨count, (dotted_eq hslash).symm.trans hmarkers⟩

/-- The plain spelling of a class has no literal text exactly if the dotted form consists of
markers, wrapped or not. -/
theorem is_unconstrained_plain_class_iff :
    Wildcard.isUnconstrained (plainClass cls) = true ↔
      (∃ count, dotted cls = Wildcard.markers count) ∨
        ∃ count, dotted cls = 'L' :: (Wildcard.markers count ++ [';']) := by
  rw [Wildcard.is_unconstrained_iff]
  rcases plain_class_cases cls with ⟨inner, hdotted, hplain⟩ | ⟨hopen, hplain⟩
  · rw [hplain, hdotted, String.toList_ofList]
    constructor
    · intro hmarkers
      obtain ⟨count, rfl⟩ := hmarkers
      exact .inr ⟨count, rfl⟩
    · intro hform
      rcases hform with ⟨count, hmarkers⟩ | ⟨count, hwrapped⟩
      · exact absurd hmarkers.symm ((markers_plain count).2 _)
      · exact ⟨count, List.append_cancel_right (List.cons.inj hwrapped).2⟩
  · rw [hplain, String.toList_ofList]
    constructor
    · exact .inl
    · intro hform
      rcases hform with hmarkers | ⟨count, hwrapped⟩
      · exact hmarkers
      · exact absurd hwrapped (hopen _)

/-- The disguised class strings are those that lose their literal text in the plain spelling. -/
theorem disguised_iff :
    Disguised cls ↔ Wildcard.isUnconstrained cls = false ∧
      Wildcard.isUnconstrained (plainClass cls) = true := by
  rw [← Bool.not_eq_true, is_unconstrained_iff_dotted, is_unconstrained_plain_class_iff]
  constructor
  · intro hdisguised
    rcases hdisguised with ⟨hslash, hmarkers⟩ | ⟨count, hwrapped⟩
    · exact ⟨fun hplain => hplain.1 hslash, .inl hmarkers⟩
    · refine ⟨?_, .inr ⟨count, hwrapped⟩⟩
      intro hplain
      obtain ⟨_, other, hmarkers⟩ := hplain
      exact (markers_plain other).2 _ (hmarkers.symm.trans hwrapped)
  · intro hloses
    obtain ⟨hliteral, hmarkers | hwrapped⟩ := hloses
    · refine .inl ⟨?_, hmarkers⟩
      by_contra hslash
      exact hliteral ⟨hslash, hmarkers⟩
    · exact .inr hwrapped

/-! ## Classes read as names -/

/-- A class string with text after what is wrapped: it begins with `L` and has a semicolon, but not
at its end. -/
def Tailed (cls : String) : Prop :=
  cls.toList.head? = some 'L' ∧ ';' ∈ cls.toList ∧ cls.toList.getLast? ≠ some ';'

/-- A class string is tailed when its dotted form is. -/
theorem tailed_iff :
    Tailed cls ↔ ∃ inner, dotted cls = 'L' :: inner ∧ ';' ∈ inner ∧ inner.getLast? ≠ some ';' := by
  rw [Tailed, ← head?_dotted (by decide) (by decide), ← mem_dotted (by decide) (by decide), Ne,
    ← get_last?_dotted (by decide) (by decide), List.head?_eq_some_iff]
  constructor
  · intro htailed
    obtain ⟨⟨inner, hdotted⟩, hmem, hlast⟩ := htailed
    rw [hdotted] at hmem hlast
    have hinner : ';' ∈ inner := by simpa using hmem
    refine ⟨inner, hdotted, hinner, ?_⟩
    rwa [List.getLast?_cons_of_ne_nil (List.ne_nil_of_mem hinner)] at hlast
  · intro htailed
    obtain ⟨inner, hdotted, hmem, hlast⟩ := htailed
    rw [hdotted, List.getLast?_cons_of_ne_nil (List.ne_nil_of_mem hmem)]
    exact ⟨⟨inner, rfl⟩, .tail _ hmem, hlast⟩

/-- A tailed class string loses its `L` as a name, and nothing as a class. -/
theorem plain_class_of_tailed (htailed : Tailed cls) : plainClass cls = "L" ++ plainName cls := by
  obtain ⟨inner, hdotted, hmem, hlast⟩ := tailed_iff.mp htailed
  have hname : plainName cls = String.ofList inner := by
    simp [plainName, hdotted, dropSemicolon, hmem, hlast]
  have hclass : plainClass cls = String.ofList ('L' :: inner) := by
    simp [plainClass, hdotted, hlast]
  rw [hname, hclass, ← String.toList_inj]
  simp

/-- Any other class string has the same plain spelling as a name and as a class. -/
theorem plain_name_of_not_tailed (htailed : ¬ Tailed cls) : plainName cls = plainClass cls := by
  rw [tailed_iff] at htailed
  unfold plainName plainClass
  split
  · rename_i inner hdotted
    by_cases hlast : inner.getLast? = some ';'
    · have hmem : ';' ∈ inner := List.mem_of_getLast? hlast
      simp [dropSemicolon, hmem, hlast]
    · have hmem : ';' ∉ inner := fun hmem => htailed ⟨inner, hdotted, hmem, hlast⟩
      simp [hmem, hlast]
  · rfl

/-- A class string has the same plain spelling as a name and as a class exactly if it is not
tailed. -/
theorem plain_name_eq_plain_class_iff : plainName cls = plainClass cls ↔ ¬ Tailed cls := by
  refine ⟨?_, plain_name_of_not_tailed⟩
  intro heq htailed
  have hlength := congrArg String.length (heq.trans (plain_class_of_tailed htailed))
  simp at hlength

/-- A tailed class string has literal text. -/
theorem Tailed.is_unconstrained_eq_false (htailed : Tailed cls) :
    Wildcard.isUnconstrained cls = false := by
  by_contra hmarkers
  rw [Bool.not_eq_false] at hmarkers
  exact (Wildcard.plain_of_pieces hmarkers).2 htailed.1

end Spelling

/-! ## Descriptors -/

/-- A target comes from a class string with literal text. A call for a new instance has the string
as its name too. -/
theorem Target.of_strings?_eq_some {kind : ReflectionKind} {cls : String} {member : Option String}
    {target : Target} (htarget : ofStrings? kind cls member = some target) :
    Wildcard.isUnconstrained cls = false ∧ target.cls = some (Spelling.plainClass cls) ∧
      (kind = .classNewInstance → target.name = some (Spelling.plainName cls)) := by
  unfold ofStrings? at htarget
  split at htarget
  · cases htarget
  · rename_i hliteral
    cases htarget
    refine ⟨Bool.eq_false_iff.mpr hliteral, rfl, ?_⟩
    rintro rfl
    rfl

/-- The selection of methods keeps a class string exactly if its plain spelling has literal text. -/
theorem Results.plain_class_mem_patterns_at {results : Results} {engine : Engine} {point : Point}
    {patterns : List Pattern} {cls : String}
    (hpatterns : results.patternsAt engine point Spelling.plainClass = .ok patterns)
    (hcls : cls ∈ results.stringsAt point) :
    (∃ pattern ∈ patterns, pattern.source = Spelling.plainClass cls) ↔
      Wildcard.isUnconstrained (Spelling.plainClass cls) = false := by
  constructor
  · rintro ⟨pattern, hpattern, hsource⟩
    obtain ⟨other, _, hcompile, hliteral⟩ := (mem_patterns_at hpatterns).mp hpattern
    rw [← hsource, Pattern.source_of_compile hcompile]
    exact hliteral
  · intro hliteral
    obtain ⟨pattern, hcompile⟩ := exists_compile_of_patterns_at hpatterns hcls
    exact ⟨pattern, (mem_patterns_at hpatterns).mpr ⟨cls, hcls, hcompile, hliteral⟩,
      Pattern.source_of_compile hcompile⟩

namespace Descriptor

variable {sites : Std.ExtTreeMap Point ReflectionKind} {results : Results} {site : Point}
  {kind : ReflectionKind} {cls : String} {descriptor : Descriptor} {target : Target}

/-- A class string contributes to the descriptors of some sites when it gives one of the targets of
a site's descriptor, with one of the choices of a member. -/
def Contributes (sites : Std.ExtTreeMap Point ReflectionKind) (results : Results) (site : Point)
    (cls : String) : Prop :=
  ∃ descriptor ∈ ofSites sites results, descriptor.site = site ∧
    ∃ member ∈ memberChoices results site descriptor.kind, ∃ target ∈ descriptor.targets,
      Target.ofStrings? descriptor.kind cls member = some target

/-- A descriptor belongs to one of the sites, and has the targets of the site. -/
theorem site_and_targets_of_mem (hdescriptor : descriptor ∈ ofSites sites results) :
    sites[descriptor.site]? = some descriptor.kind ∧
      ∀ target, target ∈ descriptor.targets ↔
        target ∈ targetsAt results descriptor.site descriptor.kind := by
  obtain ⟨⟨site, kind⟩, hentry, hsite⟩ := List.mem_filterMap.mp hdescriptor
  have hmem := Std.ExtTreeMap.mem_toList_iff_getElem?_eq_some.mp hentry
  simp only [ofSite?] at hsite
  split at hsite
  · cases hsite
  · cases hsite
    refine ⟨hmem, fun target => ?_⟩
    rw [Std.ExtTreeSet.mem_ofList, List.contains_iff_mem]

/-- Every target of a descriptor comes from a class string with literal text. -/
theorem exists_string_of_mem (hdescriptor : descriptor ∈ ofSites sites results)
    (htarget : target ∈ descriptor.targets) :
    ∃ cls ∈ results.stringsAt (descriptor.site.operand Point.classSlot),
      Wildcard.isUnconstrained cls = false ∧ target.cls = some (Spelling.plainClass cls) ∧
        (descriptor.kind = .classNewInstance →
          target.name = some (Spelling.plainName cls)) := by
  have hlisted := ((site_and_targets_of_mem hdescriptor).2 target).mp htarget
  obtain ⟨cls, hcls, hmember⟩ := List.mem_flatMap.mp hlisted
  obtain ⟨member, _, hgiven⟩ := List.mem_filterMap.mp hmember
  exact ⟨cls, hcls, Target.of_strings?_eq_some hgiven⟩

/-- A class string with literal text gives a target of its site. -/
theorem exists_target_of_string (hsite : sites[site]? = some kind)
    (hcls : cls ∈ results.stringsAt (site.operand Point.classSlot))
    (hliteral : Wildcard.isUnconstrained cls = false) :
    ∃ descriptor ∈ ofSites sites results, descriptor.site = site ∧ descriptor.kind = kind ∧
      ∃ member ∈ memberChoices results site kind, ∃ target ∈ descriptor.targets,
        Target.ofStrings? kind cls member = some target := by
  obtain ⟨member, hmember⟩ := exists_member_choice results site kind
  obtain ⟨target, htarget, _⟩ := Target.exists_of_strings? kind member hliteral
  obtain ⟨descriptor, hdescriptor, hsame, hkind, hlisted⟩ :=
    exists_descriptor hsite (mem_targets_at hcls hmember htarget)
  exact ⟨descriptor, hdescriptor, hsame, hkind, member, hmember, target, hlisted, htarget⟩

/-- A class string contributes exactly if it has literal text. -/
theorem contributes_iff (hsite : sites[site]? = some kind)
    (hcls : cls ∈ results.stringsAt (site.operand Point.classSlot)) :
    Contributes sites results site cls ↔ Wildcard.isUnconstrained cls = false := by
  constructor
  · intro hcontributes
    obtain ⟨_, _, _, _, _, _, _, hgiven⟩ := hcontributes
    exact (Target.of_strings?_eq_some hgiven).1
  · intro hliteral
    obtain ⟨descriptor, hdescriptor, hsame, rfl, hgiven⟩ :=
      exists_target_of_string hsite hcls hliteral
    exact ⟨descriptor, hdescriptor, hsame, hgiven⟩

/-- Describing a call and selecting methods skip a class string alike exactly if it is not
disguised. A disguised one is described, and the class of its target says nothing, so there is such
a target exactly if there is a disguised class string. -/
theorem class_strings_skipped_exact (engine : Engine)
    (sites : Std.ExtTreeMap Point ReflectionKind) (results : Results) :
    (∀ (site : Point) (kind : ReflectionKind), sites[site]? = some kind →
      ∀ cls ∈ results.stringsAt (site.operand Point.classSlot),
        (∀ patterns,
          results.patternsAt engine (site.operand Point.classSlot) Spelling.plainClass =
            .ok patterns →
          ((Contributes sites results site cls ↔
              ∃ pattern ∈ patterns, pattern.source = Spelling.plainClass cls) ↔
            ¬ Spelling.Disguised cls)) ∧
        (Spelling.Disguised cls → Contributes sites results site cls)) ∧
    ((∀ descriptor ∈ ofSites sites results, ∀ target ∈ descriptor.targets, ∀ cls ∈ target.cls,
        Wildcard.isUnconstrained cls = false) ↔
      ∀ (site : Point) (kind : ReflectionKind), sites[site]? = some kind →
        ∀ cls ∈ results.stringsAt (site.operand Point.classSlot), ¬ Spelling.Disguised cls) := by
  refine ⟨?_, ?_, ?_⟩
  · intro site kind hsite cls hcls
    rw [contributes_iff hsite hcls, Spelling.disguised_iff]
    refine ⟨fun patterns hpatterns => ?_, fun hdisguised => hdisguised.1⟩
    rw [Results.plain_class_mem_patterns_at hpatterns hcls]
    cases hliteral : Wildcard.isUnconstrained cls with
    | true => simp [Spelling.plain_class_of_is_unconstrained hliteral, hliteral]
    | false => simp
  · intro hsay site kind hsite cls hcls hdisguised
    obtain ⟨hliteral, hmarkers⟩ := Spelling.disguised_iff.mp hdisguised
    obtain ⟨descriptor, hdescriptor, _, _, _, _, target, htarget, hgiven⟩ :=
      exists_target_of_string hsite hcls hliteral
    have hsays :=
      hsay descriptor hdescriptor target htarget _ (Target.of_strings?_eq_some hgiven).2.1
    rw [hmarkers] at hsays
    cases hsays
  · intro hplain descriptor hdescriptor target htarget cls hcls
    obtain ⟨text, htext, hliteral, hspelt, _⟩ := exists_string_of_mem hdescriptor htarget
    obtain rfl := Option.some.inj (hspelt.symm.trans hcls)
    by_contra hmarkers
    rw [Bool.not_eq_false] at hmarkers
    exact hplain _ _ (site_and_targets_of_mem hdescriptor).1 text htext
      (Spelling.disguised_iff.mpr ⟨hliteral, hmarkers⟩)

/-- Results with one string, for the class of a call. -/
def classResults (cls : String) : Results where
  iteration := 0
  points := [
    { point := pluginSite.operand Point.classSlot
      resolution :=
        { solution := .literal cls, recursive := false, strategy := .acyclic } }]

/-- The sites of one call. -/
def onlySite (kind : ReflectionKind) : Std.ExtTreeMap Point ReflectionKind :=
  Std.ExtTreeMap.empty.insert pluginSite kind

/-- A wildcard that is wrapped is described, by a target whose class says nothing, and it is skipped
when methods are selected. -/
theorem wrapped_wildcard_described :
    "L(.*);" ∈ (classResults "L(.*);").stringsAt (pluginSite.operand Point.classSlot) ∧
      Contributes (onlySite .classCall) (classResults "L(.*);") pluginSite "L(.*);" ∧
      (classResults "L(.*);").patternsAt .standard (pluginSite.operand Point.classSlot)
        Spelling.plainClass = .ok [] ∧
      ∃ descriptor ∈ ofSites (onlySite .classCall) (classResults "L(.*);"),
        ∃ target ∈ descriptor.targets,
          target.cls = some "(.*)" ∧ Wildcard.isUnconstrained "(.*)" = true := by
  have hsite : (onlySite .classCall)[pluginSite]? = some .classCall :=
    Std.ExtTreeMap.getElem?_insert_self
  have hcls : "L(.*);" ∈
      (classResults "L(.*);").stringsAt (pluginSite.operand Point.classSlot) := by
    decide +kernel
  have hliteral : Wildcard.isUnconstrained "L(.*);" = false := by decide
  have hplain : Spelling.plainClass "L(.*);" = "(.*)" := by decide
  have hskipped : (classResults "L(.*);").patternsAt .standard
      (pluginSite.operand Point.classSlot) Spelling.plainClass = .ok [] := by
    have hstrings : (classResults "L(.*);").stringsAt (pluginSite.operand Point.classSlot) =
        ["L(.*);"] := by decide +kernel
    have hfits : Engine.WithinLimit (Pattern.expression .standard "(.*)") := by
      rw [Pattern.expression_eq_write, Engine.within_limit_write_iff]
      decide
    obtain ⟨pattern, hcompile⟩ := Pattern.exists_compile Engine.standard_documented hfits
    have hdropped : pattern.isUnconstrained = true := by
      rw [Pattern.isUnconstrained, Pattern.source_of_compile hcompile]
      decide
    rw [Results.patternsAt, hstrings]
    simp [hplain, hcompile, hdropped]
  obtain ⟨descriptor, hdescriptor, _, _, _, _, target, htarget, hgiven⟩ :=
    exists_target_of_string hsite hcls hliteral
  refine ⟨hcls, (contributes_iff hsite hcls).mpr hliteral, hskipped, descriptor, hdescriptor,
    target, htarget, ?_, by decide⟩
  rw [(Target.of_strings?_eq_some hgiven).2.1, hplain]

/-- A call for a new instance names the class itself exactly where no class string is tailed. Where
one is, the class of its target is its name with an `L` before it. -/
theorem new_instance_names_exact (sites : Std.ExtTreeMap Point ReflectionKind)
    (results : Results) :
    ((∀ descriptor ∈ ofSites sites results, descriptor.kind = .classNewInstance →
        ∀ target ∈ descriptor.targets, target.name = target.cls) ↔
      ∀ site : Point, sites[site]? = some ReflectionKind.classNewInstance →
        ∀ cls ∈ results.stringsAt (site.operand Point.classSlot), ¬ Spelling.Tailed cls) ∧
    (∀ descriptor ∈ ofSites sites results, descriptor.kind = .classNewInstance →
      ∀ target ∈ descriptor.targets, target.name = target.cls ∨
        ∃ name, target.name = some name ∧ target.cls = some ("L" ++ name)) ∧
    ∀ cls, Spelling.plainName cls = Spelling.plainClass cls ↔ ¬ Spelling.Tailed cls := by
  refine ⟨⟨?_, ?_⟩, ?_, fun _ => Spelling.plain_name_eq_plain_class_iff⟩
  · intro hnames site hsite cls hcls htailed
    obtain ⟨descriptor, hdescriptor, _, hkind, _, _, target, htarget, hgiven⟩ :=
      exists_target_of_string hsite hcls htailed.is_unconstrained_eq_false
    obtain ⟨_, hclass, hname⟩ := Target.of_strings?_eq_some hgiven
    have heq := hnames descriptor hdescriptor hkind target htarget
    rw [hclass, hname rfl] at heq
    exact Spelling.plain_name_eq_plain_class_iff.mp (Option.some.inj heq) htailed
  · intro hplain descriptor hdescriptor hkind target htarget
    obtain ⟨cls, hcls, _, hclass, hname⟩ := exists_string_of_mem hdescriptor htarget
    have hsite := (site_and_targets_of_mem hdescriptor).1
    rw [hkind] at hsite
    rw [hclass, hname hkind, Spelling.plain_name_of_not_tailed (hplain _ hsite cls hcls)]
  · intro descriptor hdescriptor hkind target htarget
    obtain ⟨cls, _, _, hclass, hname⟩ := exists_string_of_mem hdescriptor htarget
    rw [hclass, hname hkind]
    by_cases htailed : Spelling.Tailed cls
    · exact .inr ⟨_, rfl, by rw [Spelling.plain_class_of_tailed htailed]⟩
    · exact .inl (by rw [Spelling.plain_name_of_not_tailed htailed])

/-- A wrapped class with unknown text after it does not name itself. -/
theorem tailed_class_misnamed :
    ∃ descriptor ∈ ofSites (onlySite .classNewInstance) (classResults "Lapp/Foo;(.*)"),
      descriptor.kind = .classNewInstance ∧ ∃ target ∈ descriptor.targets,
        target.cls = some "Lapp.Foo;(.*)" ∧ target.name = some "app.Foo;(.*)" ∧
          target.name ≠ target.cls := by
  have hsite : (onlySite .classNewInstance)[pluginSite]? = some .classNewInstance :=
    Std.ExtTreeMap.getElem?_insert_self
  have hcls : "Lapp/Foo;(.*)" ∈
      (classResults "Lapp/Foo;(.*)").stringsAt (pluginSite.operand Point.classSlot) := by
    decide +kernel
  have hclass : Spelling.plainClass "Lapp/Foo;(.*)" = "Lapp.Foo;(.*)" := by decide
  have hname : Spelling.plainName "Lapp/Foo;(.*)" = "app.Foo;(.*)" := by decide
  obtain ⟨descriptor, hdescriptor, _, hkind, _, _, target, htarget, hgiven⟩ :=
    exists_target_of_string hsite hcls (by decide)
  obtain ⟨_, hspelt, hnamed⟩ := Target.of_strings?_eq_some hgiven
  have hnamed := hnamed rfl
  rw [hclass] at hspelt
  rw [hname] at hnamed
  refine ⟨descriptor, hdescriptor, hkind, target, htarget, hspelt, hnamed, ?_⟩
  rw [hspelt, hnamed]
  decide

end Descriptor

end StringReach
