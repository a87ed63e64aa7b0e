import StringReach.Data.Digits

/-!
# YAML text

A YAML text is read as a list of characters that know where they stand, since lines and columns
carry the structure.
-/

namespace StringReach.Yaml

/-- A character and where it stands; lines and columns count from zero. -/
structure Mark where
  char : Char
  line : Nat
  column : Nat
  /-- The number of bytes before it on its line. -/
  offset : Nat

/-- Whether a character ends a line. -/
def isBreak (c : Char) : Bool :=
  c = '\n' || c = '\u2028' || c = '\u2029'

/-- Whether a character is white space within a line. -/
def isBlank (c : Char) : Bool :=
  c = ' ' || c = '\t'

/-- Whether a character is white space or ends a line. -/
def isSpace (c : Char) : Bool :=
  isBlank c || isBreak c

/-- Whether the end of a line or the end of the text comes next. -/
def atLineEnd (text : List Mark) : Bool :=
  text.head?.all fun mark => isBreak mark.char

/-- Whether white space, the end of a line or the end of the text comes next. -/
def atSpace (text : List Mark) : Bool :=
  text.head?.all fun mark => isSpace mark.char

/-- Whether one of some characters comes next. -/
def atAny (chars : List Char) (text : List Mark) : Bool :=
  text.head?.any fun mark => chars.contains mark.char

/-- Text without the white space at its start, on its line. -/
def skipBlanks (text : List Mark) : List Mark :=
  text.dropWhile fun mark => isBlank mark.char

/-- Pass over white space and a comment to the end of the line, and over that; none if anything
else stands there. -/
def skipLine? (text : List Mark) : Option (List Mark) :=
  let text := skipBlanks text
  let text := if atAny ['#'] text then text.dropWhile fun mark => !isBreak mark.char else text
  if atLineEnd text then some (text.drop 1) else none

/-- Whether a character is a letter or digit of ASCII, a dash or a low line. -/
def isWordChar (c : Char) : Bool :=
  c.isAlphanum || c = '-' || c = '_'

/-- The word at the start of a text, which may be empty, and the text after it. -/
def splitWord (text : List Mark) : String × List Mark :=
  let isIn (mark : Mark) := isWordChar mark.char
  (String.ofList ((text.takeWhile isIn).map (·.char)), text.dropWhile isIn)

/-- Whether a character may stand in a text. -/
def isAllowed (c : Char) : Bool :=
  let n := c.toNat
  c = '\t' || c = '\n' || c = '\r' || (0x20 ≤ n && n ≤ 0x7e) || n = 0x85 ||
    (0xa0 ≤ n && n ≤ 0xfffd) || 0x10000 ≤ n

/-- Write every end of a line in one way, apart from the line and paragraph separators. -/
def normalizeBreaks : List Char → List Char
  | '\r' :: '\n' :: rest => '\n' :: normalizeBreaks rest
  | '\r' :: rest => '\n' :: normalizeBreaks rest
  | '\x85' :: rest => '\n' :: normalizeBreaks rest
  | c :: rest => c :: normalizeBreaks rest
  | [] => []

/-- Say for each character where it stands, if the first one stands at the given place. -/
def place (line column offset : Nat) : List Char → List Mark
  | [] => []
  | c :: rest =>
      ⟨c, line, column, offset⟩ ::
        if isBreak c then place (line + 1) 0 0 rest
        else place line (column + 1) (offset + c.utf8Size) rest

/-- The marks of a text; none if a character may not stand in it. -/
def marks? (text : String) : Option (List Mark) :=
  let chars := text.toList
  if chars.all isAllowed then some (place 0 0 0 (normalizeBreaks chars)) else none

/-- Whether a line starts here with three times the given character as a word. -/
def atRule (c : Char) (text : List Mark) : Bool :=
  match text with
  | first :: second :: third :: rest =>
      first.column = 0 && first.char = c && second.char = c && third.char = c && atSpace rest
  | _ => false

/-- Whether a line starts here that begins or ends a document. -/
def atDocumentRule (text : List Mark) : Bool :=
  atRule '-' text || atRule '.' text

end StringReach.Yaml
