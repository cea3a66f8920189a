import TapeVM.Decimal

/-! Numerals with a fixed number of places. A double stands for an exact number, a whole number
times a power of two; that number is rounded once, and a half goes to the even neighbour. -/
namespace TapeVM.Decimal

/-- The number a double stands for: `significand * 2 ^ exponent`, negated or not. -/
inductive Binary64 where
  | finite (negative : Bool) (significand : Nat) (exponent : Int)
  | infinite (negative : Bool)
  | undefined
  deriving DecidableEq, Repr

/-- Sign, exponent and fraction are the top bit, the next eleven and the last fifty-two. The lowest
exponent has no implied leading one, and the highest marks what is not a number. -/
def Binary64.ofBits (bits : UInt64) : Binary64 :=
  let negative := decide (0x8000000000000000 ≤ bits.toNat)
  let biased : Nat := bits.toNat / 0x10000000000000 % 0x800
  let fraction : Nat := bits.toNat % 0x10000000000000
  if biased = 0x7ff then
    if fraction = 0 then .infinite negative else .undefined
  else if biased = 0 then .finite negative fraction (-1074)
  else .finite negative (0x10000000000000 + fraction) ((biased : Int) - 1075)

/-- The whole number nearest to a quotient, the even one if two are as near. -/
def roundedQuotient (dividend divisor : Nat) : Nat :=
  let quotient := dividend / divisor
  let rest := dividend % divisor
  if divisor < 2 * rest ∨ (2 * rest = divisor ∧ quotient % 2 = 1) then quotient + 1
  else quotient

/-- How many units of `10 ^ -places` are nearest to `significand * 2 ^ exponent`. -/
def nearestUnits (places significand : Nat) (exponent : Int) : Nat :=
  roundedQuotient (significand * Nat.pow 10 places * Nat.pow 2 exponent.toNat)
    (Nat.pow 2 (-exponent).toNat)

/-- A number of units of `10 ^ -places`, with a point and exactly that many digits behind it. -/
def pointed (places units : Nat) : List Char :=
  let whole := Nat.pow 10 places
  digits (units / whole) ++ '.' :: (digits (units % whole)).leftpad places '0'

/-- The sign is kept also when the digits are all zero. -/
def signed (negative : Bool) (text : String) : String := if negative then "-" ++ text else text

def fixed (places : Nat) : Binary64 → String
  | .finite negative significand exponent =>
    signed negative (String.ofList (pointed places (nearestUnits places significand exponent)))
  | .infinite negative => signed negative "inf"
  | .undefined => "nan"

end TapeVM.Decimal
