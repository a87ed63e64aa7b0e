import StringReach.Data.Value

/-!
# Writing JSON

Data is written on one line, or over several with two spaces for each level of nesting. A number is
written as the word of 64 bits that holds it.
-/

namespace StringReach.Json

/-- The written form of a control character: two hexadecimal digits after a fixed start. -/
def controlEscape (c : Char) : List Char :=
  let digits := Nat.toDigits 16 c.toNat
  ['\\', 'u', '0', '0'] ++ List.replicate (2 - digits.length) '0' ++ digits

/-- The written form of one character of a string. -/
def stringChar (c : Char) : List Char :=
  if c = '"' then ['\\', '"']
  else if c = '\\' then ['\\', '\\']
  else if c = '\x08' then ['\\', 'b']
  else if c = '\x0c' then ['\\', 'f']
  else if c = '\n' then ['\\', 'n']
  else if c = '\r' then ['\\', 'r']
  else if c = '\t' then ['\\', 't']
  else if c < ' ' then controlEscape c
  else [c]

/-- The written form of a string. -/
def string (text : String) : String :=
  String.ofList ('"' :: text.toList.flatMap stringChar ++ ['"'])

/-- The written form of a scalar. What has no value is written as null. -/
def scalar : Data → String
  | .bool true => "true"
  | .bool false => "false"
  | .nat value => (UInt64.ofNat value).toNat.repr
  | .text value => string value
  | _ => "null"

mutual

/-- Data on one line. -/
def compact : Data → String
  | .list items => "[" ++ String.intercalate "," (compactItems items) ++ "]"
  | .record entries => "\x7b" ++ String.intercalate "," (compactEntries entries) ++ "\x7d"
  | other => scalar other

/-- The items of a list, each on one line. -/
def compactItems : List Data → List String
  | [] => []
  | item :: rest => compact item :: compactItems rest

/-- The entries of a record, each on one line. -/
def compactEntries : List (Data × Data) → List String
  | [] => []
  | (key, item) :: rest => (scalar key ++ ":" ++ compact item) :: compactEntries rest

end

/-- Parts between brackets, each on a line of its own and further in than the brackets. -/
def block (margin opening closing : String) (parts : List String) : String :=
  if parts.isEmpty then
    opening ++ closing
  else
    let inner := "\n" ++ margin ++ "  "
    opening ++ inner ++ String.intercalate ("," ++ inner) parts ++ "\n" ++ margin ++ closing

mutual

/-- Data over several lines, all but the first of which start at a margin. -/
def pretty (margin : String) : Data → String
  | .list items => block margin "[" "]" (prettyItems (margin ++ "  ") items)
  | .record entries => block margin "\x7b" "\x7d" (prettyEntries (margin ++ "  ") entries)
  | other => scalar other

/-- The items of a list over several lines. -/
def prettyItems (margin : String) : List Data → List String
  | [] => []
  | item :: rest => pretty margin item :: prettyItems margin rest

/-- The entries of a record over several lines. -/
def prettyEntries (margin : String) : List (Data × Data) → List String
  | [] => []
  | (key, item) :: rest =>
      (scalar key ++ ": " ++ pretty margin item) :: prettyEntries margin rest

end

end StringReach.Json
