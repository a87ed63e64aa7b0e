import StringReach.Proofs.Growth
import StringReach.Proofs.Layout
import StringReach.Term.Session

/-!
# What calls leave of a session

A call in place does what the functions on arenas and fields do, and when it fails nothing has been
written yet (`Call.perform_eq`). Each of the functions takes nothing away, so no call does
(`Call.only_adds`) and no run (`run_extended`).
-/

namespace StringReach

/-- What a box holds while its content moves is not seen afterwards. -/
theorem Arena.set_alloc_set (arena : Arena) (h : Handle) (hole old term : Term)
    (hbox : h < arena.size) :
    ((arena.set h hole).alloc old).2.set h term = (arena.alloc old).2.set h term := by
  have hslots : ∀ other, (((arena.set h hole).alloc old).2.set h term).get? other =
      ((arena.alloc old).2.set h term).get? other := by
    intro other
    by_cases hother : h = other
    · subst hother
      have hnew : h < arena.size + 1 := Nat.lt_succ_of_lt hbox
      rw [get?_set_self (by rwa [size_alloc, size_set]), get?_set_self (by rwa [size_alloc])]
    · rw [get?_set_of_ne _ hother, get?_set_of_ne _ hother, get?_alloc, get?_alloc, size_set,
        get?_set_of_ne _ hother]
  exact congrArg Arena.mk (Array.ext_getElem? hslots)

namespace Session

variable {session after : Session} {call : Call} {h : Handle} {term : Term} {α β : Type}

/-- A session extends another when its arena does and the fields met before have the same boxes. -/
structure ExtendedBy (before after : Session) : Prop where
  arena : before.arena.ExtendedBy after.arena
  fields : ∀ name box, before.fields.find? name = some box → after.fields.find? name = some box

/-- The field that a call names. -/
def Call.field? : Call → Option String
  | load field => some field
  | store field _ => some field
  | _ => none

/-- `Issues call before h after` says which handle a call may answer with: the box of the field that
the call names, if the field is known, and otherwise one that had no box before and has one now. -/
def Call.Issues (call : Call) (before : Session) (h : Handle) (after : Session) : Prop :=
  match call.field?.bind before.fields.find? with
  | some box => h = box
  | none => before.arena.get? h = none ∧ ∃ term, after.arena.get? h = some term

/-- A call only adds when it extends the session and issues a handle as it should, or fails and
leaves the session as it was. -/
def Call.OnlyAdds (call : Call) (before : Session) : Prop :=
  match call.perform before with
  | .ok answer after => before.ExtendedBy after ∧ ∀ h ∈ answer, call.Issues before h after
  | .error _ after => after = before

/-- What a call does, by the functions on arenas and fields. -/
def apply (session : Session) : Call → Except Violation (Option Handle × Session)
  | .alloc term =>
      let (box, arena) := session.arena.alloc term
      .ok (some box, { session with arena })
  | .growUnion target alternative =>
      (session.arena.growUnion target alternative).map fun arena => (none, { session with arena })
  | .refineEq target inner =>
      (session.arena.refineEq target inner).map fun arena => (none, { session with arena })
  | .load field =>
      let (box, fields, arena) := session.fields.load session.arena field
      .ok (some box, { arena, fields })
  | .store field value =>
      (session.fields.store session.arena field value).map fun stored =>
        (some stored.1, { arena := stored.2.2, fields := stored.2.1 })

/-- How a call in place ends, given how it does on values: a failed one has changed nothing. -/
def outcome (session : Session) :
    Except Violation (α × Session) → EStateM.Result Violation Session α
  | .ok (answer, after) => .ok answer after
  | .error violation => .error violation session

/-! ## Calls in place -/

/-- Actions go on with the answer of the first. -/
theorem bind_of_ok {first : EStateM Violation Session α} {answer : α}
    (hfirst : first session = .ok answer after) (next : α → EStateM Violation Session β) :
    (first >>= next) session = next answer after := by
  simp only [bind, EStateM.bind, hfirst]

/-- Actions end with the first that fails. -/
theorem bind_of_error {first : EStateM Violation Session α} {violation : Violation}
    (hfirst : first session = .error violation after) (next : α → EStateM Violation Session β) :
    (first >>= next) session = .error violation after := by
  simp only [bind, EStateM.bind, hfirst]

/-- Looking at the session does not change it. -/
theorem get_eq (session : Session) :
    (get : EStateM Violation Session Session) session = .ok session session :=
  rfl

/-- A box with content is found. -/
theorem content_of_some (hget : session.arena.get? h = some term) :
    content h session = .ok term session := by
  unfold content
  rw [bind_of_ok (get_eq session), hget]
  rfl

/-- A handle without a box is not found. -/
theorem content_of_none (hget : session.arena.get? h = none) :
    content h session = .error (.danglingBox h) session := by
  unfold content
  rw [bind_of_ok (get_eq session), hget]
  rfl

/-- An alternative is added in place as it is on values. -/
theorem grow_union_eq (target alternative : Handle) (session : Session) :
    growUnion target alternative session = session.outcome
      ((session.arena.growUnion target alternative).map fun arena =>
        ((), { session with arena })) := by
  unfold growUnion
  cases halternative : session.arena.get? alternative with
  | none =>
      rw [bind_of_error (content_of_none halternative), Arena.growUnion,
        Arena.get_eq_error halternative]
      rfl
  | some term =>
      rw [bind_of_ok (content_of_some halternative)]
      cases htarget : session.arena.get? target with
      | none =>
          rw [bind_of_error (content_of_none htarget), Arena.growUnion,
            Arena.get_eq_ok halternative, Arena.get_eq_error htarget]
          rfl
      | some old =>
          rw [bind_of_ok (content_of_some htarget)]
          by_cases hunion : ∃ items, old = .union items
          · obtain ⟨items, rfl⟩ := hunion
            rw [Arena.grow_union_union halternative htarget]
            show (if items.contains alternative then pure ()
              else write target (.union (items ++ [alternative])) :
                EStateM Violation Session Unit) session = _
            split <;> rfl
          · have hold : ∀ items, old ≠ .union items := fun items heq => hunion ⟨items, heq⟩
            have hmove := Arena.set_alloc_set session.arena target .bottom old
              (.union [session.arena.size, alternative]) (Arena.lt_size_of_get? htarget)
            rw [Arena.grow_union_of_ne_union halternative htarget hold, ← hmove,
              ← Arena.size_set session.arena target .bottom]
            cases old with
            | union items => exact absurd rfl (hold items)
            | top | bottom | terminal _ | parameter | concat _ _ | eq _ | pending | call _ => rfl

/-- A placeholder is filled in place as it is on values. -/
theorem refine_eq_eq (target inner : Handle) (session : Session) :
    refineEq target inner session = session.outcome
      ((session.arena.refineEq target inner).map fun arena => ((), { session with arena })) := by
  unfold refineEq Arena.refineEq
  cases hinner : session.arena.get? inner with
  | none =>
      rw [bind_of_error (content_of_none hinner), Arena.get_eq_error hinner]
      rfl
  | some term =>
      rw [bind_of_ok (content_of_some hinner), Arena.get_eq_ok hinner]
      cases htarget : session.arena.get? target with
      | none =>
          rw [bind_of_error (content_of_none htarget), Arena.get_eq_error htarget]
          rfl
      | some old =>
          rw [bind_of_ok (content_of_some htarget), Arena.get_eq_ok htarget]
          cases old <;> rfl

/-- The answer of a call may be replaced. -/
theorem bind_answer {γ : Type} {action : EStateM Violation Session β}
    {result : Except Violation γ} {answer : γ → β} {next : γ → Session}
    (haction : action session =
      session.outcome (result.map fun value => (answer value, next value)))
    (f : β → α) :
    (action >>= fun value => pure (f value)) session =
      session.outcome (result.map fun value => (f (answer value), next value)) := by
  cases result with
  | ok value => exact bind_of_ok haction _
  | error violation => exact bind_of_error haction _

/-- A field is loaded in place as it is on values. -/
theorem load_eq (name : String) (session : Session) :
    load name session = .ok (session.fields.load session.arena name).1
      { arena := (session.fields.load session.arena name).2.2
        fields := (session.fields.load session.arena name).2.1 } := by
  unfold load Fields.load
  rw [bind_of_ok (get_eq session)]
  cases session.fields.find? name <;> rfl

/-- A field is stored to in place as it is on values. -/
theorem store_eq (name : String) (value : Handle) (session : Session) :
    store name value session = session.outcome
      ((session.fields.store session.arena name value).map fun stored =>
        (stored.1, { arena := stored.2.2, fields := stored.2.1 })) := by
  unfold store Fields.store
  rw [bind_of_ok (get_eq session)]
  cases session.fields.find? name with
  | none => rfl
  | some box =>
      dsimp only
      cases hbox : session.arena.get? box with
      | none =>
          rw [bind_of_error (content_of_none hbox), Arena.get_eq_error hbox]
          rfl
      | some old =>
          rw [bind_of_ok (content_of_some hbox), Arena.get_eq_ok hbox]
          have hfill := bind_answer (refine_eq_eq box value session) fun _ => box
          have hgrow := bind_answer (grow_union_eq box value session) fun _ => box
          cases old with
          | pending =>
              refine hfill.trans ?_
              cases session.arena.refineEq box value <;> rfl
          | top | bottom | terminal _ | parameter | union _ | concat _ _ | eq _ | call _ =>
              refine hgrow.trans ?_
              cases session.arena.growUnion box value <;> rfl

/-- A call in place does what it does on values, and it fails before it has written. -/
theorem Call.perform_eq (call : Call) (session : Session) :
    call.perform session = session.outcome (session.apply call) := by
  cases call with
  | alloc term => rfl
  | growUnion target alternative =>
      exact bind_answer (grow_union_eq target alternative session) fun _ => none
  | refineEq target inner => exact bind_answer (refine_eq_eq target inner session) fun _ => none
  | load name => exact bind_of_ok (load_eq name session) fun box => pure (some box)
  | store name value => exact bind_answer (store_eq name value session) some

/-! ## One call -/

/-- A change of the arena extends the session if it extends the arena. -/
theorem extended_of_arena {arena : Arena} (hextended : session.arena.ExtendedBy arena) :
    session.ExtendedBy { session with arena } where
  arena := hextended
  fields _ _ hfind := hfind

/-- The handle of a new box was not valid before. -/
theorem issues_new (fields : Fields) (term : Term)
    (hfield : call.field?.bind session.fields.find? = none) :
    call.Issues session session.arena.size { arena := (session.arena.alloc term).2, fields } := by
  unfold Call.Issues
  rw [hfield]
  refine ⟨Array.getElem?_size, term, ?_⟩
  rw [Arena.get?_alloc, if_pos rfl]

/-- A field that is met for the first time gets a new box. -/
theorem extended_new_field {name : String} (hname : call.field? = some name)
    (hfind : session.fields.find? name = none) (term : Term) :
    session.ExtendedBy
        { arena := (session.arena.alloc term).2
          fields := { boxes := session.fields.boxes.insert name session.arena.size } } ∧
      ∀ h ∈ some session.arena.size, call.Issues session h
        { arena := (session.arena.alloc term).2
          fields := { boxes := session.fields.boxes.insert name session.arena.size } } := by
  refine ⟨⟨session.arena.extended_alloc term, ?_⟩, ?_⟩
  · intro other box hother
    have hne : name ≠ other := by
      intro heq
      subst heq
      cases hfind.symm.trans hother
    rw [Fields.find?_insert, if_neg hne, hother]
  · intro h hanswer
    cases hanswer
    exact issues_new _ term (by rw [hname]; exact hfind)

/-- A field that is known keeps its box, whose content may change. -/
theorem extended_known_field {name : String} {box : Handle} {arena : Arena}
    (hname : call.field? = some name) (hfind : session.fields.find? name = some box)
    (hextended : session.arena.ExtendedBy arena) :
    session.ExtendedBy { session with arena } ∧
      ∀ h ∈ some box, call.Issues session h { session with arena } := by
  refine ⟨extended_of_arena hextended, ?_⟩
  intro h hanswer
  cases hanswer
  have hknown : call.field?.bind session.fields.find? = some box := by
    rw [hname]
    exact hfind
  unfold Call.Issues
  rw [hknown]

/-- What a store does: it makes a box, fills one, or adds an alternative to it. -/
theorem store_cases {fields fields' : Fields} {arena arena' : Arena} {name : String}
    {box value : Handle} (hstore : fields.store arena name value = .ok (box, fields', arena')) :
    fields.find? name = none ∧ box = arena.size ∧
        fields' = { boxes := fields.boxes.insert name arena.size } ∧
        arena' = (arena.alloc (.eq value)).2 ∨
      fields.find? name = some box ∧ fields' = fields ∧
        (arena.refineEq box value = .ok arena' ∨ arena.growUnion box value = .ok arena') := by
  cases hfind : fields.find? name with
  | none =>
      rw [Fields.store_new hfind] at hstore
      cases hstore
      exact .inl ⟨rfl, rfl, rfl, rfl⟩
  | some known =>
      simp only [Fields.store, hfind] at hstore
      obtain ⟨old, _, hstore⟩ := bind_eq_ok.mp hstore
      split at hstore
      · obtain ⟨filled, hfill, hstore⟩ := bind_eq_ok.mp hstore
        cases hstore
        exact .inr ⟨rfl, rfl, .inl hfill⟩
      · obtain ⟨grown, hgrow, hstore⟩ := bind_eq_ok.mp hstore
        cases hstore
        exact .inr ⟨rfl, rfl, .inr hgrow⟩

/-- A call that succeeds extends the session and answers with a handle that it may issue. -/
theorem extended_of_apply {answer : Option Handle}
    (happly : session.apply call = .ok (answer, after)) :
    session.ExtendedBy after ∧ ∀ h ∈ answer, call.Issues session h after := by
  cases call with
  | alloc term =>
      cases happly
      refine ⟨extended_of_arena (session.arena.extended_alloc term), ?_⟩
      intro h hanswer
      cases hanswer
      exact issues_new _ term rfl
  | growUnion target alternative =>
      obtain ⟨arena, hgrow, heq⟩ := map_eq_ok happly
      cases heq
      exact ⟨extended_of_arena (Arena.extended_grow_union hgrow), fun h hanswer => nomatch hanswer⟩
  | refineEq target inner =>
      obtain ⟨arena, hfill, heq⟩ := map_eq_ok happly
      cases heq
      exact ⟨extended_of_arena (Arena.extended_refine_eq hfill), fun h hanswer => nomatch hanswer⟩
  | load name =>
      cases hfind : session.fields.find? name with
      | some box =>
          simp only [apply, Fields.load, hfind] at happly
          cases happly
          exact extended_known_field rfl hfind (.refl session.arena)
      | none =>
          simp only [apply, Fields.load, hfind] at happly
          cases happly
          exact extended_new_field rfl hfind .pending
  | store name value =>
      obtain ⟨⟨box, fields, arena⟩, hstore, heq⟩ := map_eq_ok happly
      cases heq
      rcases store_cases hstore with ⟨hfind, rfl, rfl, rfl⟩ | ⟨hfind, rfl, hfill | hgrow⟩
      · exact extended_new_field rfl hfind (.eq value)
      · exact extended_known_field rfl hfind (Arena.extended_refine_eq hfill)
      · exact extended_known_field rfl hfind (Arena.extended_grow_union hgrow)

/-- Every call only adds, in every session. -/
theorem Call.only_adds (call : Call) (session : Session) : call.OnlyAdds session := by
  unfold Call.OnlyAdds
  rw [call.perform_eq]
  cases happly : session.apply call with
  | ok answered => exact extended_of_apply happly
  | error violation => rfl

/-! ## Runs -/

/-- Extensions of sessions compose. -/
theorem ExtendedBy.trans {before middle after : Session} (hfirst : before.ExtendedBy middle)
    (hsecond : middle.ExtendedBy after) : before.ExtendedBy after where
  arena := hfirst.arena.trans hsecond.arena
  fields name box hfind := hsecond.fields name box (hfirst.fields name box hfind)

/-- Calls made in turn extend the session, whether or not some of them fail. -/
theorem run_extended (session : Session) (calls : List Call) :
    session.ExtendedBy (session.run calls).2 := by
  induction calls generalizing session with
  | nil => exact extended_of_arena (.refl session.arena)
  | cons call rest ih =>
      unfold run
      rw [call.perform_eq]
      cases happly : session.apply call with
      | ok answered => exact (extended_of_apply happly).1.trans (ih answered.2)
      | error violation => exact ih session

/-- A run of calls takes nothing away. Valid handles stay valid, unions keep their items, other
content stays or gives way to a union with its children below it, and whatever could be reached from
a box still can, cycles included. After every run, the next call answers with a new handle unless it
names a known field, and it leaves the session as it is when it fails. -/
theorem run_only_adds (session : Session) (calls : List Call) :
    session.ExtendedBy (session.run calls).2 ∧
    (∀ h other, session.arena.Reaches h other → (session.run calls).2.arena.Reaches h other) ∧
    (∀ h, session.arena.ReachesSome session.arena.OnCycle h →
      (session.run calls).2.arena.ReachesSome (session.run calls).2.arena.OnCycle h) ∧
    ∀ call : Call, call.OnlyAdds (session.run calls).2 := by
  have hextended := session.run_extended calls
  exact ⟨hextended, fun _ _ hreach => hextended.arena.reaches hreach,
    fun _ hcycle => hextended.arena.reaches_cycle hcycle, fun call => call.only_adds _⟩

/-- A loop in a session that knows no fields. -/
def loopSession : Session := { arena := Arena.appendLoop }

/-- Calls that move the concatenation of the loop, fail to replace its union, and give a field its
box, its first value and a second one. -/
def loopCalls : List Call :=
  [.growUnion 3 2, .refineEq 2 0, .load "name", .store "name" 3, .store "name" 0]

/-- The loop is still there after the calls, one of which has failed. -/
theorem run_only_adds_append_loop :
    (loopSession.run loopCalls).1 =
      [.ok none, .error (.illegalMutation 2 (.union [0, 3])), .ok (some 5), .ok (some 5),
        .ok (some 5)] ∧
    loopSession.arena.ReachesSome loopSession.arena.OnCycle 2 ∧
    loopSession.ExtendedBy (loopSession.run loopCalls).2 ∧
    (loopSession.run loopCalls).2.arena.ReachesSome (loopSession.run loopCalls).2.arena.OnCycle 2 ∧
    (Call.refineEq 2 0).OnlyAdds (loopSession.run loopCalls).2 := by
  have hdown : loopSession.arena.Child 2 3 := ⟨.union [0, 3], rfl, by decide⟩
  have hback : loopSession.arena.Child 3 2 := ⟨.concat 2 1, rfl, by decide⟩
  have hcycle : loopSession.arena.ReachesSome loopSession.arena.OnCycle 2 :=
    ⟨2, .refl, .head hdown (.single hback)⟩
  obtain ⟨hextended, _, hcycles, hcalls⟩ := run_only_adds loopSession loopCalls
  exact ⟨rfl, hcycle, hextended, hcycles 2 hcycle, hcalls (.refineEq 2 0)⟩

end Session

end StringReach
