/-!
# Digits

Numbers as runs of digits of some base.
-/

namespace StringReach.Digits

/-- The value of a digit in bases up to sixteen. -/
def value? (c : Char) : Option Nat :=
  if '0' ≤ c ∧ c ≤ '9' then some (c.toNat - '0'.toNat)
  else if 'a' ≤ c ∧ c ≤ 'f' then some (c.toNat - 'a'.toNat + 10)
  else if 'A' ≤ c ∧ c ≤ 'F' then some (c.toNat - 'A'.toNat + 10)
  else none

/-- The number that a run of digits of a base adds to a number before it. -/
def append? (base number : Nat) : List Char → Option Nat
  | [] => some number
  | c :: rest => do
      let digit ← value? c
      if digit < base then append? base (number * base + digit) rest else none

/-- The number written by a run of at least one digit of a base. -/
def number? (base : Nat) (digits : List Char) : Option Nat :=
  if digits.isEmpty then none else append? base 0 digits

/-- One more than the largest number that fits 64 bits. -/
def wordLimit : Nat := Nat.pow 2 64

/-- The number written by a run of digits of a base, if it fits 64 bits. -/
def word? (base : Nat) (digits : List Char) : Option Nat :=
  (number? base digits).filter (· < wordLimit)

/-- The least integer that is out of the range of binary64 numbers. -/
def floatLimit : Nat := Nat.pow 2 1024 - Nat.pow 2 970

/-- Whether `significand * 10 ^ (plus - minus)` is in the range of binary64 numbers. Far outside of
the range the number of digits decides. -/
def fitsFloat (significand plus minus : Nat) : Bool :=
  let size := (Nat.toDigits 10 significand).length
  if significand = 0 ∨ size + plus < minus + 300 then
    true
  else if minus + 320 < size + plus then
    false
  else
    significand * Nat.pow 10 (plus - minus) < floatLimit * Nat.pow 10 (minus - plus)

end StringReach.Digits
