import StringReach.Data.Yaml.Marks

/-!
# YAML scalars within a line

A scalar stands in quotes or is plain. It may run over several lines, and then the end of a line is
folded: a single one counts as a space, and of several all but the first are kept.
-/

namespace StringReach.Yaml

/-- White space inside a scalar. Only the text after it decides whether it belongs there. -/
structure Gap where
  /-- The white space on the line, in reverse. -/
  blanks : List Char := []
  /-- Whether the line has ended. -/
  broken : Bool := false
  /-- The end of the line, unless it was escaped. -/
  first : Option Char := none
  /-- The ends of the empty lines after it, in reverse. -/
  others : List Char := []

namespace Gap

/-- Whether there is no white space. -/
def isEmpty (gap : Gap) : Bool :=
  gap.blanks.isEmpty && !gap.broken

/-- Take one more white space character in. -/
def add (gap : Gap) (c : Char) : Gap :=
  if isBreak c then
    if gap.broken then { gap with others := c :: gap.others }
    else { broken := true, first := some c }
  else if gap.broken then gap
  else { gap with blanks := c :: gap.blanks }

/-- What the white space stands for, in reverse. -/
def folded (gap : Gap) : List Char :=
  if !gap.broken then gap.blanks
  else match gap.first with
    | some '\n' => if gap.others.isEmpty then [' '] else gap.others
    | some c => gap.others ++ [c]
    | none => gap.others

end Gap

/-- A plain scalar and what follows it. -/
structure PlainText where
  value : String
  /-- Whether white space after it was read past the end of the line. -/
  leftLine : Bool
  rest : List Mark

/-- A plain scalar of characters in reverse, after which a gap and a rest come. -/
def PlainText.ofReversed (chars : List Char) (gap : Gap) (rest : List Mark) : PlainText :=
  ⟨String.ofList chars.reverse, gap.broken, rest⟩

/-- Read a plain scalar in a block whose nested nodes start at the column `margin` or after it.
It ends before a comment, a colon that is a word's end, a document's rule and a line that is not
indented enough; inside brackets, `inFlow`, also before a bracket or a comma. -/
def plain? (inFlow : Bool) (margin : Nat) : List Mark → Gap → List Char → Option PlainText
  | [], gap, chars => some (.ofReversed chars gap [])
  | mark :: rest, gap, chars =>
      let c := mark.char
      if isSpace c then
        if gap.broken && mark.column < margin && c = '\t' then none
        else plain? inFlow margin rest (gap.add c) chars
      else if !gap.isEmpty &&
          ((!inFlow && mark.column < margin) || atDocumentRule (mark :: rest) || c = '#') then
        some (.ofReversed chars gap (mark :: rest))
      else if inFlow && c = ':' && atAny [',', '?', '[', ']', '\x7b', '\x7d'] rest then none
      else if (c = ':' && atSpace rest) ||
          (inFlow && [',', '[', ']', '\x7b', '\x7d'].contains c) then
        some (.ofReversed chars gap (mark :: rest))
      else plain? inFlow margin rest {} (c :: (gap.folded ++ chars))

/-- The character of an escape that is one character long. -/
def escaped? : Char → Option Char
  | '0' => some '\x00'
  | 'a' => some '\x07'
  | 'b' => some '\x08'
  | 't' => some '\t'
  | '\t' => some '\t'
  | 'n' => some '\n'
  | 'v' => some '\x0b'
  | 'f' => some '\x0c'
  | 'r' => some '\r'
  | 'e' => some '\x1b'
  | ' ' => some ' '
  | '"' => some '"'
  | '/' => some '/'
  | '\\' => some '\\'
  | 'N' => some '\x85'
  | '_' => some '\xa0'
  | 'L' => some '\u2028'
  | 'P' => some '\u2029'
  | _ => none

/-- The number of hexadecimal digits after an escape. -/
def escapeDigits : Char → Nat
  | 'x' => 2
  | 'u' => 4
  | 'U' => 8
  | _ => 0

/-- Read an escape after its backslash: its character and the number of marks it takes. -/
def escape? (c : Char) (rest : List Mark) : Option (Char × Nat) :=
  match escapeDigits c with
  | 0 => (escaped? c).map (·, 0)
  | digits =>
      let code := (rest.take digits).map (·.char)
      if code.length < digits then none
      else do
        let value ← Digits.number? 16 code
        if value.isValidChar then some (Char.ofNat value, digits) else none

/-- Read the inside of a scalar in double quotes and its closing quote. -/
def doubleQuoted? (text : List Mark) (gap : Gap) (chars : List Char) :
    Option (String × List Mark) :=
  match text with
  | [] => none
  | mark :: rest =>
      if isSpace mark.char then doubleQuoted? rest (gap.add mark.char) chars
      else if atDocumentRule (mark :: rest) then none
      else
        let chars := gap.folded ++ chars
        if mark.char = '"' then some (String.ofList chars.reverse, rest)
        else if mark.char = '\\' then
          match rest with
          | [] => none
          | next :: rest =>
              if isBreak next.char then doubleQuoted? rest { broken := true } chars
              else
                match escape? next.char rest with
                | some (c, digits) => doubleQuoted? (rest.drop digits) {} (c :: chars)
                | none => none
        else doubleQuoted? rest {} (mark.char :: chars)
termination_by text.length
decreasing_by all_goals simp only [List.length_cons, List.length_drop]; omega

/-- Read the inside of a scalar in single quotes and its closing quote; a quote inside of it is
written twice. -/
def singleQuoted? (text : List Mark) (gap : Gap) (chars : List Char) :
    Option (String × List Mark) :=
  match text with
  | [] => none
  | mark :: rest =>
      if isSpace mark.char then singleQuoted? rest (gap.add mark.char) chars
      else if atDocumentRule (mark :: rest) then none
      else
        let chars := gap.folded ++ chars
        if mark.char = '\'' then
          match rest with
          | [] => some (String.ofList chars.reverse, [])
          | next :: after =>
              if next.char = '\'' then singleQuoted? after {} ('\'' :: chars)
              else some (String.ofList chars.reverse, next :: after)
        else singleQuoted? rest {} (mark.char :: chars)

end StringReach.Yaml
