/-! Decimal numerals of natural numbers and integers: no leading zeros, and a minus sign in front
of negative numbers only. -/
namespace TapeVM.Decimal

def digit (value : Nat) : Char := Char.ofNat ('0'.toNat + value)

/-- The digits of a number, most significant first; zero has the one digit `0`. -/
def digits (n : Nat) : List Char :=
  if n < 10 then [digit n] else digits (n / 10) ++ [digit (n % 10)]
termination_by n
decreasing_by omega

def natural (n : Nat) : String := String.ofList (digits n)

def integer : Int → String
  | .ofNat n => natural n
  | .negSucc n => "-" ++ natural (n + 1)

end TapeVM.Decimal
