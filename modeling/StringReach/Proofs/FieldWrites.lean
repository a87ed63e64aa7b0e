import StringReach.Proofs.ClosingCycles
import StringReach.Proofs.Indirection
import StringReach.Proofs.Session

/-!
# Fields hold what was written to them

The box of a field is empty before the first write. The first value is kept apart from the later
ones: it is the content of the box at first, and moves to a box of its own when a second value comes
(`Holds`). Each call keeps this for all fields at once (`Recorded.apply`), because calls through
fields change no other boxes, and so does every run (`Recorded.run`). Hence a field has the strings
of all values written to it (`Holds.solveBounded`), even if the first of them is part of a cycle
that runs through the box that it was moved to.
-/

namespace StringReach

/-- A store to a known field fails when the value has no box. -/
theorem Fields.store_dangling {fields : Fields} {arena : Arena} {name : String}
    {box value : Handle} {term : Term} (hfind : fields.find? name = some box)
    (hbox : arena.get? box = some term) (hvalue : arena.get? value = none) :
    fields.store arena name value = .error (.danglingBox value) := by
  simp only [store, hfind]
  rw [Arena.get_eq_ok hbox]
  cases term with
  | pending =>
      show (arena.refineEq box value >>= _) = _
      rw [Arena.refineEq, Arena.get_eq_error hvalue]
      rfl
  | top | bottom | terminal _ | parameter | union _ | concat _ _ | eq _ | call _ =>
      show (arena.growUnion box value >>= _) = _
      rw [Arena.growUnion, Arena.get_eq_error hvalue]
      rfl

namespace Session

/-- The calls that change no boxes but those of fields: they make new boxes, load and store. -/
def Call.throughFields : Call → Bool
  | .growUnion _ _ => false
  | .refineEq _ _ => false
  | _ => true

/-- The value that a call writes to a field. -/
def Call.writes? (field : String) : Call → Option Handle
  | .store name value => if name = field then some value else none
  | _ => none

/-- Whether the value that a call stores has a box. -/
def Call.storesValid (session : Session) : Call → Bool
  | .store _ value => value < session.arena.size
  | _ => true

/-- Whether each value has a box when it is stored. -/
def storesValid (session : Session) : List Call → Bool
  | [] => true
  | call :: rest => call.storesValid session && (session.run [call]).2.storesValid rest

/-- The values that calls write to a field, in order. A call that fails writes nothing. -/
def written (session : Session) (calls : List Call) (field : String) : List Handle :=
  ((calls.zip (session.run calls).1).filter (·.2.isOk)).filterMap (·.1.writes? field)

/-- `Holds session box values` says that the box of a field holds the values written to the field.
The first one has a box to itself as soon as there are more, and no field has that box. -/
inductive Holds (session : Session) (box : Handle) : List Handle → Prop where
  | nothing : session.arena.get? box = some .pending → Holds session box []
  | one (value) : session.arena.get? box = some (.eq value) → Holds session box [value]
  | more (first later moved items) : session.arena.get? box = some (.union (moved :: items)) →
      session.arena.get? moved = some (.eq first) →
      (∀ name, session.fields.find? name ≠ some moved) →
      (∀ item ∈ items, item ∈ later) → (∀ value ∈ later, value ∈ moved :: items) →
      Holds session box (first :: later)

/-- Every field has a box of its own, which holds the values written to the field. -/
structure Recorded (session : Session) (values : String → List Handle) : Prop where
  distinct : ∀ name other box, session.fields.find? name = some box →
    session.fields.find? other = some box → name = other
  holds : ∀ name box, session.fields.find? name = some box → session.Holds box (values name)
  unmet : ∀ name, session.fields.find? name = none → values name = []

variable {session after : Session} {call : Call} {name : String} {box value : Handle} {term : Term}
  {stored : List Handle} {values values' : String → List Handle} {answer : Option Handle}

/-! ## What a change leaves alone -/

/-- The box of a field exists. -/
theorem Holds.exists_get? (hholds : session.Holds box stored) :
    ∃ term, session.arena.get? box = some term := by
  cases hholds with
  | nothing hget | one _ hget | more _ _ _ _ hget => exact ⟨_, hget⟩

/-- What a field holds does not change with other fields, nor with new ones. -/
theorem Holds.frame (hholds : session.Holds box stored)
    (hkeeps : ∀ h term, session.arena.get? h = some term →
      (h = box ∨ ∀ name, session.fields.find? name ≠ some h) → after.arena.get? h = some term)
    (hfields : ∀ name h term, session.arena.get? h = some term →
      after.fields.find? name = some h → session.fields.find? name = some h) :
    after.Holds box stored := by
  cases hholds with
  | nothing hget => exact .nothing (hkeeps box _ hget (.inl rfl))
  | one value hget => exact .one value (hkeeps box _ hget (.inl rfl))
  | more first later moved items hget hmoved hfree hitems hlater =>
      refine .more first later moved items (hkeeps box _ hget (.inl rfl))
        (hkeeps moved _ hmoved (.inr hfree)) ?_ hitems hlater
      intro name hname
      exact hfree name (hfields name moved _ hmoved hname)

namespace Recorded

/-- No field has the box that comes next. -/
theorem size_free (hrecorded : session.Recorded values) (name : String) :
    session.fields.find? name ≠ some session.arena.size := by
  intro hfind
  obtain ⟨term, hget⟩ := (hrecorded.holds name _ hfind).exists_get?
  exact Arena.ne_size hget rfl

/-- In a session that knows no fields nothing was written. -/
theorem empty (arena : Arena) : Recorded { arena } fun _ => [] where
  distinct name other box hname := by simp [Fields.find?, Fields.empty] at hname
  holds name box hname := by simp [Fields.find?, Fields.empty] at hname
  unmet _ _ := rfl

/-- A new box changes nothing. -/
theorem alloc (hrecorded : session.Recorded values) (term : Term) :
    Recorded { session with arena := (session.arena.alloc term).2 } values where
  distinct := hrecorded.distinct
  holds name box hfind := by
    refine (hrecorded.holds name box hfind).frame ?_ fun _ _ _ _ hname => hname
    intro h content hget _
    show (session.arena.alloc term).2.get? h = some content
    rw [Arena.get?_alloc, if_neg (Arena.ne_size hget), hget]
  unmet := hrecorded.unmet

/-- A field that is met for the first time gets a new box. -/
theorem bind (hrecorded : session.Recorded values)
    (hafter : after =
      { arena := (session.arena.alloc term).2
        fields := { boxes := session.fields.boxes.insert name session.arena.size } })
    (hholds : after.Holds session.arena.size (values' name))
    (hothers : ∀ other, name ≠ other → values' other = values other) :
    after.Recorded values' := by
  have hget : after.arena.get? = (session.arena.alloc term).2.get? := by rw [hafter]
  have hfields : ∀ other, after.fields.find? other =
      if name = other then some session.arena.size else session.fields.find? other := by
    intro other
    rw [hafter, Fields.find?_insert]
  have hkeeps : ∀ h content, session.arena.get? h = some content →
      after.arena.get? h = some content := by
    intro h content hcontent
    rw [hget, Arena.get?_alloc, if_neg (Arena.ne_size hcontent), hcontent]
  refine ⟨?_, ?_, ?_⟩
  · intro first second box hfirst hsecond
    rw [hfields] at hfirst hsecond
    split at hfirst
    · rename_i heq
      subst heq
      cases hfirst
      split at hsecond
      · rename_i heq
        exact heq
      · exact absurd hsecond (hrecorded.size_free second)
    · split at hsecond
      · cases hsecond
        exact absurd hfirst (hrecorded.size_free first)
      · exact hrecorded.distinct first second box hfirst hsecond
  · intro other box hother
    rw [hfields] at hother
    split at hother
    · rename_i heq
      subst heq
      cases hother
      exact hholds
    · rename_i hne
      rw [hothers other hne]
      refine (hrecorded.holds other box hother).frame (fun h content hcontent _ =>
        hkeeps h content hcontent) ?_
      intro third h content hcontent hthird
      rw [hfields] at hthird
      split at hthird
      · cases hthird
        exact absurd rfl (Arena.ne_size hcontent)
      · exact hthird
  · intro other hother
    rw [hfields] at hother
    split at hother
    · cases hother
    · rename_i hne
      rw [hothers other hne]
      exact hrecorded.unmet other hother

/-- A change of the box of one field is not seen by the others. -/
theorem change {arena : Arena} (hrecorded : session.Recorded values)
    (hfind : session.fields.find? name = some box)
    (hkeeps : ∀ h term, session.arena.get? h = some term → h ≠ box → arena.get? h = some term)
    (hholds : Holds { session with arena } box (values' name))
    (hothers : ∀ other, name ≠ other → values' other = values other) :
    Recorded { session with arena } values' where
  distinct := hrecorded.distinct
  holds other box' hother := by
    by_cases hname : name = other
    · subst hname
      cases hfind.symm.trans hother
      exact hholds
    · rw [hothers other hname]
      refine (hrecorded.holds other box' hother).frame ?_ fun _ _ _ _ hthird => hthird
      intro h content hcontent hwhich
      refine hkeeps h content hcontent ?_
      intro heq
      subst heq
      rcases hwhich with heq | hfree
      · subst heq
        exact hname (hrecorded.distinct name other h hfind hother)
      · exact hfree name hfind
  unmet other hother := by
    have hname : name ≠ other := by
      intro heq
      subst heq
      cases hfind.symm.trans hother
    rw [hothers other hname]
    exact hrecorded.unmet other hother

/-! ## One call -/

/-- A store to a known field succeeds if the value has a box. It changes the box of the field alone,
which then holds the value too. -/
theorem store_known (hrecorded : session.Recorded values)
    (hfind : session.fields.find? name = some box) (hvalue : session.arena.get? value = some term) :
    ∃ arena, session.fields.store session.arena name value = .ok (box, session.fields, arena) ∧
      (∀ h content, session.arena.get? h = some content → h ≠ box →
        arena.get? h = some content) ∧
      Holds { session with arena } box (values name ++ [value]) := by
  have hholds := hrecorded.holds name box hfind
  generalize values name = stored at hholds
  cases hholds with
  | nothing hget =>
      refine ⟨_, Fields.store_pending hfind hget hvalue, ?_, ?_⟩
      · intro h content hcontent hne
        rw [Arena.get?_set_of_ne _ hne.symm, hcontent]
      · exact .one value (Arena.get?_set_self (Arena.lt_size_of_get? hget) _)
  | one first hget =>
      obtain ⟨arena, hgrow⟩ := Arena.exists_grow_union hget hvalue
      obtain ⟨_, hgrows⟩ := Arena.grows_of_grow_union hgrow
      refine ⟨arena, Fields.store_grow hfind hget (by simp) hgrow, ?_, ?_⟩
      · exact fun h content hcontent hne => hgrows.get?_of_ne hcontent hne.symm
      · obtain ⟨hpair, hmoved⟩ := hgrows.get?_moved hget (by simp)
        exact .more first [value] session.arena.size [value] hpair hmoved hrecorded.size_free
          (by simp) (by simp)
  | more first later moved items hget hmoved hfree hitems hlater =>
      obtain ⟨arena, hgrow⟩ := Arena.exists_grow_union hget hvalue
      obtain ⟨_, hgrows⟩ := Arena.grows_of_grow_union hgrow
      refine ⟨arena, Fields.store_grow hfind hget (by simp) hgrow, ?_, ?_⟩
      · exact fun h content hcontent hne => hgrows.get?_of_ne hcontent hne.symm
      · obtain ⟨more, hlonger, hmore⟩ := hgrows.get?_union hget
        obtain ⟨listed, hlisted, hmem⟩ := hgrows.lists
        cases hlonger.symm.trans hlisted
        have hne : box ≠ moved := by
          intro heq
          subst heq
          exact hfree name hfind
        refine .more first (later ++ [value]) moved (items ++ more) hlonger
          (hgrows.get?_of_ne hmoved hne) hfree ?_ ?_
        · intro item hitem
          rcases List.mem_append.mp hitem with hitem | hitem
          · exact List.mem_append_left _ (hitems item hitem)
          · rw [hmore item hitem]
            exact List.mem_append_right _ (List.mem_singleton_self value)
        · intro other hother
          rcases List.mem_append.mp hother with hother | hother
          · exact List.mem_append_left more (hlater other hother)
          · rw [List.mem_singleton.mp hother]
            exact hmem

/-- A call that succeeds adds what it writes, and it answers with the box of the field it names. -/
theorem apply (hrecorded : session.Recorded values) (hcall : call.throughFields = true)
    (happly : session.apply call = .ok (answer, after)) :
    after.Recorded (fun field => values field ++ (call.writes? field).toList) ∧
      ∀ field, call.field? = some field →
        ∃ box, answer = some box ∧ after.fields.find? field = some box := by
  cases call with
  | alloc term =>
      cases happly
      have hsame : (fun field => values field ++ ((Call.alloc term).writes? field).toList) =
          values :=
        funext fun field => List.append_nil _
      rw [hsame]
      refine ⟨hrecorded.alloc term, ?_⟩
      intro field hfield
      cases hfield
  | growUnion target alternative => cases hcall
  | refineEq target inner => cases hcall
  | load name =>
      cases hfind : session.fields.find? name with
      | some box =>
          simp only [Session.apply, Fields.load, hfind] at happly
          cases happly
          refine ⟨by simpa [Call.writes?] using hrecorded, ?_⟩
          intro field hfield
          cases hfield
          exact ⟨box, rfl, hfind⟩
      | none =>
          simp only [Session.apply, Fields.load, hfind] at happly
          cases happly
          refine ⟨hrecorded.bind rfl ?_ (by simp [Call.writes?]), ?_⟩
          · rw [hrecorded.unmet name hfind]
            refine .nothing ?_
            show (session.arena.alloc .pending).2.get? session.arena.size = some .pending
            rw [Arena.get?_alloc, if_pos rfl]
          · intro field hfield
            cases hfield
            exact ⟨_, rfl, by rw [Fields.find?_insert, if_pos rfl]⟩
  | store name value =>
      obtain ⟨⟨box, fields, arena⟩, hstore, heq⟩ := map_eq_ok happly
      cases heq
      have hothers : ∀ other, name ≠ other →
          values other ++ ((Call.store name value).writes? other).toList = values other := by
        intro other hne
        simp [Call.writes?, hne]
      have hname : values name ++ ((Call.store name value).writes? name).toList =
          values name ++ [value] := by
        simp [Call.writes?]
      cases hfind : session.fields.find? name with
      | none =>
          rw [Fields.store_new hfind] at hstore
          cases hstore
          refine ⟨hrecorded.bind rfl ?_ hothers, ?_⟩
          · rw [hname, hrecorded.unmet name hfind]
            refine .one value ?_
            show (session.arena.alloc (.eq value)).2.get? session.arena.size = some (.eq value)
            rw [Arena.get?_alloc, if_pos rfl]
          · intro field hfield
            cases hfield
            exact ⟨_, rfl, by rw [Fields.find?_insert, if_pos rfl]⟩
      | some known =>
          obtain ⟨content, hcontent⟩ := (hrecorded.holds name known hfind).exists_get?
          cases hvalue : session.arena.get? value with
          | none =>
              rw [Fields.store_dangling hfind hcontent hvalue] at hstore
              cases hstore
          | some term =>
              obtain ⟨changed, hchanged, hkeeps, hholds⟩ := hrecorded.store_known hfind hvalue
              cases hchanged.symm.trans hstore
              refine ⟨hrecorded.change hfind hkeeps (by rw [hname]; exact hholds) hothers, ?_⟩
              intro field hfield
              cases hfield
              exact ⟨box, rfl, hfind⟩

/-- A call through fields fails only if it stores a value without a box. -/
theorem exists_apply (hrecorded : session.Recorded values) (hcall : call.throughFields = true)
    (hvalid : call.storesValid session = true) :
    ∃ answer after, session.apply call = .ok (answer, after) := by
  cases call with
  | alloc term => exact ⟨_, _, rfl⟩
  | growUnion target alternative => cases hcall
  | refineEq target inner => cases hcall
  | load name => exact ⟨_, _, rfl⟩
  | store name value =>
      cases hfind : session.fields.find? name with
      | none =>
          rw [Session.apply, Fields.store_new hfind]
          exact ⟨_, _, rfl⟩
      | some box =>
          have hbox : value < session.arena.size := by simpa [Call.storesValid] using hvalid
          obtain ⟨arena, hstore, _⟩ :=
            hrecorded.store_known hfind (Array.getElem?_eq_getElem hbox)
          rw [Session.apply, hstore]
          exact ⟨_, _, rfl⟩

end Recorded

/-! ## Runs -/

/-- After a call that succeeds the others are made in the session that it leaves. -/
theorem run_of_ok (happly : session.apply call = .ok (answer, after)) (rest : List Call) :
    session.run (call :: rest) = (.ok answer :: (after.run rest).1, (after.run rest).2) := by
  rw [run, call.perform_eq, happly]
  rfl

/-- After a call that fails the others are made in the session as it was. -/
theorem run_of_error {violation : Violation} (happly : session.apply call = .error violation)
    (rest : List Call) :
    session.run (call :: rest) =
      (.error violation :: (session.run rest).1, (session.run rest).2) := by
  rw [run, call.perform_eq, happly]
  rfl

/-- A call that succeeds writes before the others. -/
theorem written_of_ok (happly : session.apply call = .ok (answer, after)) (rest : List Call)
    (field : String) :
    session.written (call :: rest) field =
      (call.writes? field).toList ++ after.written rest field := by
  unfold written
  rw [run_of_ok happly, List.zip_cons_cons, List.filter_cons_of_pos rfl, List.filterMap_cons]
  cases call.writes? field <;> rfl

/-- A call that fails writes nothing. -/
theorem written_of_error {violation : Violation} (happly : session.apply call = .error violation)
    (rest : List Call) (field : String) :
    session.written (call :: rest) field = session.written rest field := by
  unfold written
  rw [run_of_error happly, List.zip_cons_cons,
    List.filter_cons_of_neg (by simp [Except.isOk, Except.toBool])]

namespace Recorded

/-- Calls through fields add what they write to what was written before. -/
theorem run {calls : List Call} (hrecorded : session.Recorded values)
    (hcalls : ∀ call ∈ calls, call.throughFields = true) :
    (session.run calls).2.Recorded fun field => values field ++ session.written calls field := by
  induction calls generalizing session values with
  | nil =>
      have hsame : (fun field => values field ++ session.written [] field) = values :=
        funext fun field => List.append_nil _
      rw [hsame]
      exact hrecorded
  | cons call rest ih =>
      have hrest : ∀ call ∈ rest, call.throughFields = true :=
        fun other hmem => hcalls other (List.mem_cons_of_mem call hmem)
      cases happly : session.apply call with
      | ok answered =>
          have hnext := ih (hrecorded.apply (hcalls call (by simp)) happly).1 hrest
          rw [run_of_ok happly]
          simpa only [written_of_ok happly, List.append_assoc] using hnext
      | error violation =>
          rw [run_of_error happly]
          simpa only [written_of_error happly] using ih hrecorded hrest

/-- When each value has a box as it is stored, no call fails, each answers with the box that its
field has in the end, and all stores write. -/
theorem run_valid {calls : List Call} (hrecorded : session.Recorded values)
    (hcalls : ∀ call ∈ calls, call.throughFields = true)
    (hvalid : session.storesValid calls = true) :
    ∃ answers : List (Option Handle), (session.run calls).1 = answers.map .ok ∧
      List.Forall₂ (fun call answer => ∀ field, call.field? = some field →
        ∃ box, answer = some box ∧ (session.run calls).2.fields.find? field = some box)
        calls answers ∧
      ∀ field, session.written calls field = calls.filterMap (Call.writes? field) := by
  induction calls generalizing session values with
  | nil => exact ⟨[], rfl, .nil, fun _ => rfl⟩
  | cons call rest ih =>
      obtain ⟨hfirst, hvalid⟩ := Bool.and_eq_true_iff.mp hvalid
      have hcall := hcalls call (by simp)
      obtain ⟨answer, after, happly⟩ := hrecorded.exists_apply hcall hfirst
      obtain ⟨hnext, hanswer⟩ := hrecorded.apply hcall happly
      rw [run_of_ok happly] at hvalid
      obtain ⟨answers, hrun, hanswers, hwritten⟩ :=
        ih hnext (fun other hmem => hcalls other (List.mem_cons_of_mem call hmem)) hvalid
      rw [run_of_ok happly]
      refine ⟨answer :: answers, ?_, .cons ?_ hanswers, ?_⟩
      · show Except.ok answer :: (after.run rest).1 = _
        rw [hrun]
        rfl
      · -- A field keeps its box in the calls that follow.
        intro field hfield
        obtain ⟨box, heq, hfind⟩ := hanswer field hfield
        exact ⟨box, heq, (after.run_extended rest).fields field box hfind⟩
      · intro field
        rw [written_of_ok happly, hwritten, List.filterMap_cons]
        cases call.writes? field <;> rfl

end Recorded

/-! ## The values of a field -/

/-- A field that was written has at every depth the strings of the values written to it, if its box
lies below none of them. -/
theorem Holds.solve_bounded (hholds : session.Holds box stored) (hsome : stored ≠ [])
    (hapart : ∀ value ∈ stored, ¬ session.arena.Reaches value box)
    (hintact : session.arena.Intact box) (depth : Nat) :
    (∀ value ∈ stored, ∃ part, session.arena.solveBounded depth value = .ok part) ∧
    ∃ solution, session.arena.solveBounded depth box = .ok solution ∧
      ∀ text, text ∈ solution.strings ↔ ∃ value ∈ stored, ∃ part,
        session.arena.solveBounded depth value = .ok part ∧ text ∈ part.strings := by
  have hsolves : ∀ h, session.arena.Reaches box h →
      ∃ part, session.arena.solveBounded depth h = .ok part := by
    intro h hreach
    obtain ⟨part, hsolve, _⟩ := Arena.solve_bounded_unfolds (hintact.of_reaches hreach) depth
    exact ⟨part, hsolve⟩
  cases hholds with
  | nothing => exact absurd rfl hsome
  | one value hget =>
      obtain ⟨solution, hsolve⟩ := hsolves box .refl
      have hinner := Arena.solve_bounded_eq_inner hget hintact depth
      rw [hsolve] at hinner
      simp [hsolve, ← hinner]
  | more first later moved items hget hmoved _ hitems hlater =>
      have hbelow : ∀ item ∈ moved :: items, session.arena.Reaches box item :=
        fun item hmem => .single ⟨_, hget, hmem⟩
      have hsame : session.arena.solveBounded depth moved =
          session.arena.solveBounded depth first :=
        Arena.solve_bounded_eq_inner hmoved (hintact.of_reaches (hbelow moved (by simp))) depth
      have hfar : ∀ item ∈ moved :: items, ¬ session.arena.Reaches item box := by
        intro item hmem hreach
        rcases List.mem_cons.mp hmem with rfl | hmem
        · refine Arena.not_reaches_of_eq hmoved ?_ (hapart first (by simp)) hreach
          intro heq
          subst heq
          cases hget.symm.trans hmoved
        · exact hapart item (List.mem_cons_of_mem first (hitems item hmem)) hreach
      obtain ⟨solution, hsolve, hstrings⟩ :=
        Arena.solve_bounded_union hget hfar fun item hmem => hsolves item (hbelow item hmem)
      refine ⟨?_, solution, hsolve, ?_⟩
      · intro value hvalue
        rcases List.mem_cons.mp hvalue with rfl | hvalue
        · rw [← hsame]
          exact hsolves moved (hbelow moved (by simp))
        · exact hsolves value (hbelow value (hlater value hvalue))
      · intro text
        rw [hstrings]
        constructor
        · intro htext
          obtain ⟨item, hitem, part, hpart, htext⟩ := htext
          rcases List.mem_cons.mp hitem with rfl | hitem
          · exact ⟨first, by simp, part, by rw [← hsame, hpart], htext⟩
          · exact ⟨item, List.mem_cons_of_mem first (hitems item hitem), part, hpart, htext⟩
        · intro htext
          obtain ⟨value, hvalue, part, hpart, htext⟩ := htext
          rcases List.mem_cons.mp hvalue with rfl | hvalue
          · exact ⟨moved, by simp, part, by rw [hsame, hpart], htext⟩
          · exact ⟨value, hlater value hvalue, part, hpart, htext⟩

/-- Fields describe exactly what was written to them, whatever the order of loads and stores. In a
session that knows no fields at first, let calls make boxes, load and store, where each value has a
box when it is stored. Then no call fails, each load or store of a field answers with the box that
the field has in the end, and different fields have different boxes. A field that was never written
has an empty box. One that was has at every depth exactly the strings of the values written to it,
unless its box lies below one of them or above a handle that dangles. -/
theorem fields_describe_writes (arena : Arena) (calls : List Call)
    (hcalls : ∀ call ∈ calls, call.throughFields = true)
    (hvalid : storesValid { arena } calls = true) :
    ∃ answers final, run { arena } calls = (answers.map Except.ok, final) ∧
      List.Forall₂ (fun call answer => ∀ field, call.field? = some field →
        ∃ box, answer = some box ∧ final.fields.find? field = some box) calls answers ∧
      (∀ field other box, final.fields.find? field = some box →
        final.fields.find? other = some box → field = other) ∧
      ∀ field box, final.fields.find? field = some box →
        (calls.filterMap (Call.writes? field) = [] → final.arena.get? box = some .pending) ∧
        (calls.filterMap (Call.writes? field) ≠ [] →
          (∀ value ∈ calls.filterMap (Call.writes? field), ¬ final.arena.Reaches value box) →
          final.arena.Intact box → ∀ depth,
            (∀ value ∈ calls.filterMap (Call.writes? field),
              ∃ part, final.arena.solveBounded depth value = .ok part) ∧
            ∃ solution, final.arena.solveBounded depth box = .ok solution ∧
              ∀ text, text ∈ solution.strings ↔
                ∃ value ∈ calls.filterMap (Call.writes? field), ∃ part,
                  final.arena.solveBounded depth value = .ok part ∧ text ∈ part.strings) := by
  obtain ⟨answers, hrun, hanswers, hwritten⟩ := (Recorded.empty arena).run_valid hcalls hvalid
  have hrecorded := (Recorded.empty arena).run hcalls
  refine ⟨answers, (run { arena } calls).2, Prod.ext hrun rfl, hanswers, hrecorded.distinct, ?_⟩
  intro field box hfind
  have hholds := hrecorded.holds field box hfind
  rw [List.nil_append, hwritten] at hholds
  constructor
  · intro hnone
    rw [hnone] at hholds
    cases hholds with
    | nothing hget => exact hget
  · exact hholds.solve_bounded

/-- A loop that is still open: the concatenation in it names a box that does not exist yet. -/
def openLoop : Arena where
  slots := #[.union [1, 2], .terminal "a", .concat 6 3, .terminal "b"]

/-- Calls that load a field before it is written, pass its box on to another field, write it three
times, so that the first value moves to the box that was missing, and never write a third field. -/
def crossedCalls : List Call :=
  [.load "x", .store "y" 4, .store "x" 0, .store "x" 3, .load "z", .store "x" 3, .store "y" 1]

/-- The field that is written three times has the strings of the loop, which runs through the box
that the first value was moved to. -/
theorem fields_describe_writes_crossed :
    (∀ call ∈ crossedCalls, call.throughFields = true) ∧
    storesValid { arena := openLoop } crossedCalls = true ∧
    ∃ final, run { arena := openLoop } crossedCalls =
        ([some 4, some 5, some 4, some 4, some 7, some 4, some 5].map Except.ok, final) ∧
      final.arena.get? 7 = some .pending ∧
      ∀ depth, ∃ solution, final.arena.solveBounded depth 4 = .ok solution ∧
        ∀ text, text ∈ solution.strings ↔ ∃ value ∈ [0, 3, 3], ∃ part,
          final.arena.solveBounded depth value = .ok part ∧ text ∈ part.strings := by
  have hcalls : ∀ call ∈ crossedCalls, call.throughFields = true := by decide
  have hvalid : storesValid { arena := openLoop } crossedCalls = true := rfl
  obtain ⟨answers, final, hrun, _, _, hfields⟩ :=
    fields_describe_writes openLoop crossedCalls hcalls hvalid
  obtain rfl : (run { arena := openLoop } crossedCalls).2 = final := congrArg Prod.snd hrun
  have hstart : ∀ value ∈ [0, 3, 3], value ∈ [0, 1, 2, 3, 6] := by decide
  have hbelow : ∀ value ∈ [0, 3, 3], ∀ h,
      (run { arena := openLoop } crossedCalls).2.arena.Reaches value h → h ∈ [0, 1, 2, 3, 6] :=
    fun value hvalue h hreach =>
      Arena.mem_of_reaches (by decide) (hstart value hvalue) hreach
  refine ⟨hcalls, hvalid, _, rfl, (hfields "z" 7 rfl).1 rfl, ?_⟩
  refine fun depth => ((hfields "x" 4 rfl).2 (by decide) ?_ ?_ depth).2
  · intro value hvalue hreach
    exact absurd (hbelow value hvalue 4 hreach) (by decide)
  · exact Arena.intact_of_children_lt (by decide) (by decide)

end Session

end StringReach
