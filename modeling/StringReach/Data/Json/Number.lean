import StringReach.Data.Digits

/-!
# Size of JSON numbers

A number with a fraction or an exponent, or one that does not fit 64 bits, is held as a binary64
number. It is computed as the product of its leading digits, as far as they fit 64 bits, and a
power of ten, each of them rounded. A product beyond the range of binary64 numbers has no value.
-/

namespace StringReach.Json

/-- Append digits to a number as long as the result fits 64 bits; with the digits left over. -/
def leading (significand : Nat) : List Nat → Nat × List Nat
  | [] => (significand, [])
  | digit :: rest =>
      let longer := significand * 10 + digit
      if longer < Digits.wordLimit then leading longer rest else (significand, digit :: rest)

/-- A natural number rounded to 53 significant bits, a half to the even neighbour. -/
def roundToFloat (n : Nat) : Nat :=
  let dropped := n.log2 + 1 - 53
  if dropped = 0 then
    n
  else
    let unit := Nat.pow 2 dropped
    let quotient := n / unit
    let twice := 2 * (n % unit)
    let up := unit < twice || (twice = unit && quotient % 2 = 1)
    (if up then quotient + 1 else quotient) * unit

/-- The largest power of ten in the range of binary64 numbers. -/
def maxPower : Nat := 308

/-- One more than the largest exponent that is taken at its value. -/
def exponentLimit : Nat := Nat.pow 2 31

/-- Whether the product of a number and a power of ten is in range. -/
def productFits (significand : Nat) (power : Int) : Bool :=
  if significand = 0 || power < 0 then true
  else if maxPower < power.toNat then false
  else roundToFloat significand * roundToFloat (Nat.pow 10 power.toNat) < Digits.floatLimit

/-- Whether a number is in range, given the digits before and after its point and its exponent. -/
def fits (whole fraction : List Nat) (exponent : Int) : Bool :=
  let (significand, skipped) := leading 0 whole
  let (significand, dropped) := leading significand fraction
  if exponentLimit ≤ exponent.natAbs then
    significand = 0 || exponent < 0
  else
    productFits significand (exponent + skipped.length - (fraction.length - dropped.length))

end StringReach.Json
