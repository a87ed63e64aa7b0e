import StringReach.Term.Fields

/-!
# Sessions

A session is an arena with the fields of a program, which calls change in place. A call that fails
is answered by its violation, and the calls after it go on with whatever it has left.
-/

namespace StringReach

/-- Boxes and fields that calls change in place. -/
structure Session where
  arena : Arena := .empty
  fields : Fields := .empty

namespace Session

/-- The content of a box that has to exist. -/
def content (h : Handle) : EStateM Violation Session Term := do
  let session ← get
  match session.arena.get? h with
  | some term => pure term
  | none => throw (.danglingBox h)

/-- Put a term into a new box. -/
def alloc (term : Term) : EStateM Violation Session Handle :=
  modifyGet fun session =>
    let (box, arena) := session.arena.alloc term
    (box, { session with arena })

/-- Replace the content of a box. -/
def write (h : Handle) (term : Term) : EStateM Violation Session Unit :=
  modify fun session => { session with arena := session.arena.set h term }

/-- Give a field its box. -/
def bindField (name : String) (box : Handle) : EStateM Violation Session Unit :=
  modify fun session =>
    { session with fields := { boxes := session.fields.boxes.insert name box } }

/-- Add an alternative to a box. -/
def growUnion (target alternative : Handle) : EStateM Violation Session Unit := do
  let _ ← content alternative
  match ← content target with
  | .union items =>
      if items.contains alternative then
        pure ()
      else
        write target (.union (items ++ [alternative]))
  | old => do
      -- The box is left without content while its old content moves.
      write target .bottom
      let moved ← alloc old
      write target (.union [moved, alternative])

/-- Fill a box that has no content yet. -/
def refineEq (target inner : Handle) : EStateM Violation Session Unit := do
  let _ ← content inner
  match ← content target with
  | .pending => write target (.eq inner)
  | .bottom => write target (.eq inner)
  | found => throw (.illegalMutation target found)

/-- The box of a field, made empty on the first mention. -/
def load (name : String) : EStateM Violation Session Handle := do
  let session ← get
  match session.fields.find? name with
  | some box => pure box
  | none => do
      let box ← alloc .pending
      bindField name box
      pure box

/-- Record that a field may hold the values of a box, and return the box of the field. -/
def store (name : String) (value : Handle) : EStateM Violation Session Handle := do
  let session ← get
  match session.fields.find? name with
  | none => do
      let box ← alloc (.eq value)
      bindField name box
      pure box
  | some box => do
      match ← content box with
      | .pending => refineEq box value
      | _ => growUnion box value
      pure box

/-- The calls that may change a session. -/
inductive Call where
  | alloc (term : Term)
  | growUnion (target alternative : Handle)
  | refineEq (target inner : Handle)
  | load (field : String)
  | store (field : String) (value : Handle)
deriving DecidableEq, Repr

/-- Make a call. The answer is the handle that it returns, if it returns one. -/
def Call.perform : Call → EStateM Violation Session (Option Handle)
  | alloc term => do
      let box ← Session.alloc term
      pure (some box)
  | growUnion target alternative => do
      Session.growUnion target alternative
      pure none
  | refineEq target inner => do
      Session.refineEq target inner
      pure none
  | load field => do
      let box ← Session.load field
      pure (some box)
  | store field value => do
      let box ← Session.store field value
      pure (some box)

/-- Make calls in turn, also after one that has failed. -/
def run (session : Session) : List Call → List (Except Violation (Option Handle)) × Session
  | [] => ([], session)
  | call :: rest =>
      match call.perform session with
      | .ok answer session =>
          let (answers, session) := session.run rest
          (.ok answer :: answers, session)
      | .error violation session =>
          let (answers, session) := session.run rest
          (.error violation :: answers, session)

end Session

end StringReach
