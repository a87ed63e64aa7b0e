import StringReach.Text.Hidden

/-!
# Quoted text

A quoted text stands between double quotes. Quotes, backslashes and the common controls are written
with a backslash, and any other character that does not show by its code point, so the quoted form
is printable and has one reading.
-/

namespace StringReach.Text

/-- The written form of one character of a quoted text. -/
def quotedChar (c : Char) : List Char :=
  if c = '\x00' then ['\\', '0']
  else if c = '\t' then ['\\', 't']
  else if c = '\n' then ['\\', 'n']
  else if c = '\r' then ['\\', 'r']
  else if c = '"' then ['\\', '"']
  else if c = '\\' then ['\\', '\\']
  else if isHidden c then ['\\', 'u', '\x7b'] ++ Nat.toDigits 16 c.toNat ++ ['\x7d']
  else [c]

/-- A text between double quotes, with the characters that need it escaped. -/
def quoted (text : String) : String :=
  String.ofList ('"' :: text.toList.flatMap quotedChar ++ ['"'])

end StringReach.Text
