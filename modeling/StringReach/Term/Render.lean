import StringReach.Term.Path
import StringReach.Text.Quoted

/-!
# The text of a term

A term is written out in full. A compound box inside of itself is written as its handle, so the
text of a cyclic term is finite too.
-/

namespace StringReach

/-- The text of a term, given those of its children in order. -/
def Term.renderWith : Term → List String → String
  | top, _ => "TOP"
  | bottom, _ => "BOTTOM"
  | terminal value, _ => Text.quoted value
  | parameter, _ => "PARAM"
  | union _, parts => "(" ++ String.intercalate " | " parts ++ ")"
  | concat _ _, parts => "(" ++ String.intercalate " . " parts ++ ")"
  | eq _, parts => "=" ++ String.join parts
  | pending, _ => "PENDING"
  | call callee, _ => "CALL(" ++ callee ++ ")"

namespace Arena

mutual

/-- Write out a box inside of a path of compound boxes. -/
def renderBelow (arena : Arena) (showHandles : Bool) (path : Path) (h : Handle) :
    Except Violation String :=
  match _hget : arena.get? h with
  | none => .error (.danglingBox h)
  | some term =>
      if !term.isCompound then
        .ok (term.renderWith [])
      else if _hpath : 0 < path.count h then
        .ok h.text
      else do
        let parts ← renderAll arena showHandles (path.enter h) term.children
        let text := term.renderWith parts
        pure (if showHandles then h.text ++ ":" ++ text else text)
termination_by (arena.room 0 path, 0)
decreasing_by exact Prod.Lex.left _ _ (room_enter_lt (lt_size_of_get? _hget) (by omega))

/-- Write out several boxes. -/
def renderAll (arena : Arena) (showHandles : Bool) (path : Path) :
    List Handle → Except Violation (List String)
  | [] => .ok []
  | h :: rest => do
      let first ← renderBelow arena showHandles path h
      let others ← renderAll arena showHandles path rest
      pure (first :: others)
termination_by items => (arena.room 0 path, items.length)

end

/-- The text of a box, on request with the handle before each compound term. -/
def render (arena : Arena) (showHandles : Bool) (root : Handle) : Except Violation String :=
  arena.renderBelow showHandles .empty root

end Arena

end StringReach
