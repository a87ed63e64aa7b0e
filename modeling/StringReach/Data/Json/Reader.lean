import StringReach.Data.Json.Number
import StringReach.Data.Value

/-!
# Reading JSON

The grammar is the strict one: no comments, no comma before a closing bracket, nothing around the
value but white space, no control character inside a string.
-/

namespace StringReach.Json

/-- Text without the white space at its start. -/
def skipSpace (text : List Char) : List Char :=
  text.dropWhile fun c => c = ' ' || c = '\t' || c = '\n' || c = '\r'

/-- The code unit of four hexadecimal digits. -/
def unit? (a b c d : Char) : Option Nat :=
  Digits.number? 16 [a, b, c, d]

/-- The character of a one-letter escape. -/
def escaped? : Char → Option Char
  | '"' => some '"'
  | '\\' => some '\\'
  | '/' => some '/'
  | 'b' => some '\x08'
  | 'f' => some '\x0c'
  | 'n' => some '\n'
  | 'r' => some '\r'
  | 't' => some '\t'
  | _ => none

/-- Whether a code unit is the first of a surrogate pair. -/
def isHigh (unit : Nat) : Bool :=
  0xd800 ≤ unit && unit < 0xdc00

/-- Whether a code unit is the second of a surrogate pair. -/
def isLow (unit : Nat) : Bool :=
  0xdc00 ≤ unit && unit < 0xe000

/-- The character of a surrogate pair. -/
def paired (high low : Nat) : Char :=
  Char.ofNat (0x10000 + (high - 0xd800) * 0x400 + (low - 0xdc00))

/-- Read the inside of a string up to its closing quote. The text read so far is kept in reverse,
and is none once an unpaired surrogate was met. -/
def string? : List Char → Option (List Char) → Option (Data × List Char)
  | '"' :: rest, text =>
      let data := text.map fun chars => Data.text (String.ofList chars.reverse)
      some (data.getD .unreadable, rest)
  | '\\' :: 'u' :: a :: b :: c :: d :: '\\' :: 'u' :: e :: f :: g :: h :: rest, text => do
      let first ← unit? a b c d
      match unit? e f g h with
      | some second =>
          if isHigh first && isLow second then
            string? rest (text.map (paired first second :: ·))
          else
            string? ('\\' :: 'u' :: e :: f :: g :: h :: rest)
              (if isHigh first || isLow first then none else text.map (Char.ofNat first :: ·))
      | none => none
  | '\\' :: 'u' :: a :: b :: c :: d :: rest, text => do
      let unit ← unit? a b c d
      string? rest (if isHigh unit || isLow unit then none else text.map (Char.ofNat unit :: ·))
  | '\\' :: c :: rest, text => do
      let c ← escaped? c
      string? rest (text.map (c :: ·))
  | c :: rest, text =>
      if c < ' ' || c = '\\' then none else string? rest (text.map (c :: ·))
  | [], _ => none

/-- Read the exponent of a number, if there is one. -/
def exponent? (text : List Char) : Option (Option Int × List Char) :=
  match text with
  | e :: rest =>
      if e = 'e' || e = 'E' then
        let (negative, rest) := match rest with
          | '-' :: rest => (true, rest)
          | '+' :: rest => (false, rest)
          | _ => (false, rest)
        match Digits.number? 10 (rest.takeWhile Char.isDigit) with
        | some n => some (some (if negative then -n else n), rest.dropWhile Char.isDigit)
        | none => none
      else some (none, text)
  | [] => some (none, [])

/-- Read the fraction of a number, if there is one. -/
def fraction? (text : List Char) : Option (Option (List Char) × List Char) :=
  match text with
  | '.' :: rest =>
      let digits := rest.takeWhile Char.isDigit
      if digits.isEmpty then none else some (some digits, rest.dropWhile Char.isDigit)
  | _ => some (none, text)

/-- Read a number. Only a whole number without sign, fraction and exponent keeps its value. -/
def number? (text : List Char) : Option (Data × List Char) := do
  let (negative, text) := match text with
    | '-' :: rest => (true, rest)
    | _ => (false, text)
  let whole := text.takeWhile Char.isDigit
  let value ← Digits.number? 10 whole
  if whole.length > 1 && whole.head? = some '0' then none
  let (fraction, text) ← fraction? (text.dropWhile Char.isDigit)
  let (exponent, text) ← exponent? text
  if !negative && fraction.isNone && exponent.isNone && value < Digits.wordLimit then
    pure (.nat value, text)
  else
    let whole := whole.filterMap Digits.value?
    let fraction := (fraction.getD []).filterMap Digits.value?
    pure (if fits whole fraction (exponent.getD 0) then .number else .unreadable, text)

/-- Read the rest of a word. -/
def word? (word : List Char) (data : Data) (text : List Char) : Option (Data × List Char) :=
  if word.isPrefixOf text then some (data, text.drop word.length) else none

/-- The deepest nesting of lists and records that has a value. -/
def maxNesting : Nat := 127

/-- A list or record at a depth of nesting. -/
def nested (nesting : Nat) (data : Data) : Data :=
  if nesting < maxNesting then data else .unreadable

mutual

/-- Read a value inside of `nesting` lists and records. Every two levels of the reader take a
character, so fuel for twice the length of the text is enough. -/
def value? (fuel nesting : Nat) (text : List Char) : Option (Data × List Char) :=
  match fuel with
  | 0 => none
  | fuel + 1 =>
      match skipSpace text with
      | '"' :: rest => string? rest (some [])
      | '[' :: rest => do
          let (items, rest) ← match skipSpace rest with
            | ']' :: rest => pure ([], rest)
            | _ => items? fuel (nesting + 1) rest
          pure (nested nesting (.list items), rest)
      | '\x7b' :: rest => do
          let (entries, rest) ← match skipSpace rest with
            | '\x7d' :: rest => pure ([], rest)
            | _ => entries? fuel (nesting + 1) rest
          pure (nested nesting (.record entries), rest)
      | 'n' :: rest => word? ['u', 'l', 'l'] .null rest
      | 't' :: rest => word? ['r', 'u', 'e'] (.bool true) rest
      | 'f' :: rest => word? ['a', 'l', 's', 'e'] (.bool false) rest
      | text => number? text

/-- Read the items of a list and its closing bracket. -/
def items? (fuel nesting : Nat) (text : List Char) : Option (List Data × List Char) :=
  match fuel with
  | 0 => none
  | fuel + 1 => do
      let (item, rest) ← value? fuel nesting text
      match skipSpace rest with
      | ',' :: rest => do
          let (items, rest) ← items? fuel nesting rest
          pure (item :: items, rest)
      | ']' :: rest => pure ([item], rest)
      | _ => none

/-- Read the entries of a record and its closing brace. -/
def entries? (fuel nesting : Nat) (text : List Char) : Option (List (Data × Data) × List Char) :=
  match fuel with
  | 0 => none
  | fuel + 1 =>
      match skipSpace text with
      | '"' :: rest => do
          let (name, rest) ← string? rest (some [])
          match skipSpace rest with
          | ':' :: rest => do
              let (item, rest) ← value? fuel nesting rest
              match skipSpace rest with
              | ',' :: rest => do
                  let (entries, rest) ← entries? fuel nesting rest
                  pure ((name, item) :: entries, rest)
              | '\x7d' :: rest => pure ([(name, item)], rest)
              | _ => none
          | _ => none
      | _ => none

end

/-- Read a text that holds one value. -/
def read? (text : String) : Option Data := do
  let chars := text.toList
  let (data, rest) ← value? (2 * chars.length + 2) 0 chars
  if (skipSpace rest).isEmpty then some data else none

end StringReach.Json
