import StringReach.Data.Value

/-!
# YAML scalars by their look

A plain scalar without a tag is null, a truth value, a number or a text by its look.
-/

namespace StringReach.Yaml.Plain

/-- Whether a scalar is a word for an absent value. -/
def isNullWord (source : String) : Bool :=
  ["~", "null", "Null", "NULL"].contains source

/-- Whether a plain scalar stands for an absent value. -/
def isNull (source : String) : Bool :=
  source = "" || isNullWord source

/-- The truth value that a scalar stands for. -/
def bool? (source : String) : Option Bool :=
  if ["true", "True", "TRUE"].contains source then some true
  else if ["false", "False", "FALSE"].contains source then some false
  else none

/-- Digits that start with a zero are no number. -/
def isZeroLed (unsigned : List Char) : Bool :=
  match unsigned with
  | '0' :: first :: rest => (first :: rest).all Char.isDigit
  | _ => false

/-- The magnitude of a whole number without its sign, in one of four bases. -/
def magnitude? (unsigned : List Char) : Option Nat :=
  match unsigned with
  | '0' :: 'x' :: digits => Digits.number? 16 digits
  | '0' :: 'o' :: digits => Digits.number? 8 digits
  | '0' :: 'b' :: digits => Digits.number? 2 digits
  | _ => if isZeroLed unsigned then none else Digits.number? 10 unsigned

/-- Whether a scalar has a minus sign, and its text without a sign. -/
def splitSign (source : String) : Bool × List Char :=
  match source.toList with
  | '-' :: rest => (true, rest)
  | '+' :: rest => (false, rest)
  | chars => (false, chars)

/-- The whole number of at most 64 bits and without a minus sign that a scalar stands for. -/
def nat? (source : String) : Option Nat :=
  let (negative, unsigned) := splitSign source
  if negative then none else (magnitude? unsigned).filter (· < Digits.wordLimit)

/-- Whether the text of a decimal number, without its sign, stands for one in the binary64 range. -/
def isDecimal (unsigned : List Char) : Bool :=
  let whole := unsigned.takeWhile Char.isDigit
  let (fraction, rest) := match unsigned.dropWhile Char.isDigit with
    | '.' :: rest => (rest.takeWhile Char.isDigit, rest.dropWhile Char.isDigit)
    | rest => ([], rest)
  let exponent? : Option (Nat × Nat) := match rest with
    | [] => some (0, 0)
    | e :: rest =>
        if e = 'e' ∨ e = 'E' then
          match rest with
          | '-' :: digits => (Digits.number? 10 digits).map (0, ·)
          | '+' :: digits => (Digits.number? 10 digits).map (·, 0)
          | digits => (Digits.number? 10 digits).map (·, 0)
        else none
  match Digits.number? 10 (whole ++ fraction), exponent? with
  | some significand, some (plus, minus) =>
      Digits.fitsFloat significand plus (minus + fraction.length)
  | _, _ => false

/-- Whether a scalar stands for a decimal number, an infinite one or an undefined one. -/
def isFloat (source : String) : Bool :=
  let (_, unsigned) := splitSign source
  [".inf", ".Inf", ".INF"].contains (String.ofList unsigned) ||
    [".nan", ".NaN", ".NAN"].contains source || isDecimal unsigned

/-- The value of a scalar that is a whole number by its look: one of more than 64 bits has no value,
and one of more than 128 is a decimal number. -/
def whole? (source : String) : Option Data := do
  let (negative, unsigned) := splitSign source
  let magnitude ← magnitude? unsigned
  if negative then
    if magnitude ≤ Nat.pow 2 63 then some .number
    else if magnitude ≤ Nat.pow 2 127 then some .unreadable
    else none
  else
    if magnitude < Nat.pow 2 64 then some (.nat magnitude)
    else if magnitude < Nat.pow 2 128 then some .unreadable
    else none

/-- The value of a plain scalar. -/
def value (source : String) : Data :=
  if isNull source then .null
  else match bool? source, whole? source with
    | some value, _ => .bool value
    | none, some value => value
    | none, none =>
        if isFloat source && !isZeroLed (splitSign source).2 then .number else .text source

end StringReach.Yaml.Plain
