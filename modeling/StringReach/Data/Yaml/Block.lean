import StringReach.Data.Yaml.Marks

/-!
# YAML block scalars

A literal or folded scalar is written on indented lines after its header. The header may say how far
the lines are indented and what becomes of the ends of lines after the text; otherwise the first
lines decide the indentation, and one end of a line is kept.
-/

namespace StringReach.Yaml

/-- What becomes of the ends of lines after a block scalar. -/
inductive Chomping where
  /-- All of them are dropped. -/
  | strip
  /-- The first one is kept. -/
  | clip
  /-- All of them are kept. -/
  | keep
deriving DecidableEq

namespace BlockScalar

/-- Read the sign for the ends of lines, if there is one. -/
def chomping? : List Mark → Option Chomping × List Mark
  | mark :: rest =>
      if mark.char = '+' then (some .keep, rest)
      else if mark.char = '-' then (some .strip, rest)
      else (none, mark :: rest)
  | [] => (none, [])

/-- Read the digit for the indentation, if there is one; it cannot be zero. -/
def indentation? : List Mark → Option (Option Nat × List Mark)
  | mark :: rest =>
      if mark.char = '0' then none
      else if mark.char.isDigit then some (Digits.value? mark.char, rest)
      else some (none, mark :: rest)
  | [] => some (none, [])

/-- Read the header to the end of its line. Its two signs stand in any order. -/
def header? (text : List Mark) : Option (Chomping × Option Nat × List Mark) := do
  let (before, text) := chomping? text
  let (indentation, text) ← indentation? text
  let (after, text) := if before.isNone && indentation.isSome then chomping? text else (none, text)
  let text ← skipLine? text
  pure ((before.or after).getD .clip, indentation, text)

/-- Empty lines, and the text after them up to its first character that is not indentation. -/
structure Gap where
  /-- The ends of the empty lines, in reverse. -/
  breaks : List Char
  /-- The column of the furthest character that ends the indentation of a line. -/
  reach : Nat
  rest : List Mark

/-- Pass over empty lines and indentation, of which the width may not be known yet. A tab cannot
stand in the indentation. -/
def gap? (indentation : Option Nat) (breaks : List Char) (reach : Nat) :
    List Mark → Option Gap
  | [] => some ⟨breaks, reach, []⟩
  | mark :: rest =>
      let inside := indentation.all (mark.column < ·)
      if inside && mark.char = ' ' then gap? indentation breaks reach rest
      else if inside && mark.char = '\t' then none
      else
        let reach := max reach mark.column
        if isBreak mark.char then gap? indentation (mark.char :: breaks) reach rest
        else some ⟨breaks, reach, mark :: rest⟩

/-- The text of a block scalar that has been read in part, in reverse. -/
structure Lines where
  chars : List Char := []
  /-- The end of the last line. -/
  lineEnd : Option Char := none
  /-- Whether the last line starts with white space. -/
  indented : Bool := false

/-- Add a line after a gap. Folding turns the end of a line into a space, or drops it before empty
lines, unless a line next to it starts with white space. -/
def Lines.add (lines : Lines) (literal : Bool) (breaks line : List Char) (lineEnd : Option Char) :
    Lines :=
  let indented := line.head?.any isBlank
  let folds := !literal && lines.lineEnd = some '\n' && !lines.indented && !indented
  let joint := if !folds then lines.lineEnd.toList else if breaks.isEmpty then [' '] else []
  { chars := line.reverse ++ breaks ++ joint ++ lines.chars, lineEnd, indented }

/-- The whole text after the last line, in front of the last gap. -/
def Lines.finish (lines : Lines) (chomping : Chomping) (breaks : List Char) : String :=
  let kept := match chomping with
    | .strip => []
    | .clip => lines.lineEnd.toList
    | .keep => breaks ++ lines.lineEnd.toList
  String.ofList (kept ++ lines.chars).reverse

/-- Read lines that are indented by a width. Each takes a character, so the length of the text is
enough fuel. -/
def lines? (literal : Bool) (chomping : Chomping) (indentation : Nat) :
    Nat → Lines → Gap → Option (String × List Mark)
  | 0, lines, gap => some (lines.finish chomping gap.breaks, gap.rest)
  | fuel + 1, lines, gap =>
      if gap.rest.head?.any (·.column = indentation) then do
        let line := gap.rest.takeWhile fun mark => !isBreak mark.char
        let rest := gap.rest.dropWhile fun mark => !isBreak mark.char
        let lineEnd := rest.head?.map (·.char)
        let lines := lines.add literal gap.breaks (line.map (·.char)) lineEnd
        let gap ← gap? (some indentation) [] 0 (rest.drop 1)
        lines? literal chomping indentation fuel lines gap
      else some (lines.finish chomping gap.breaks, gap.rest)

end BlockScalar

/-- Read a literal or folded scalar after its sign, in a block whose nested nodes start at the
column `margin` or after it. -/
def blockScalar? (literal : Bool) (margin : Nat) (text : List Mark) :
    Option (String × List Mark) := do
  let (chomping, given, text) ← BlockScalar.header? text
  let indentation := given.map fun width => margin - 1 + width
  let gap ← BlockScalar.gap? indentation [] 0 text
  let indentation := indentation.getD (max gap.reach (max margin 1))
  BlockScalar.lines? literal chomping indentation text.length {} gap

end StringReach.Yaml
