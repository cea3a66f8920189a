import TapeVM.Decimal

/-! Numerals with a comma between thousands. -/
namespace TapeVM.Decimal

/-- The digits of a number below a thousand, with zeros in front up to three. -/
def threeDigits (n : Nat) : List Char := [digit (n / 100), digit (n / 10 % 10), digit (n % 10)]

def groupedDigits (n : Nat) : List Char :=
  if n < 1000 then digits n else groupedDigits (n / 1000) ++ ',' :: threeDigits (n % 1000)
termination_by n
decreasing_by omega

def grouped : Int → String
  | .ofNat n => String.ofList (groupedDigits n)
  | .negSucc n => "-" ++ String.ofList (groupedDigits (n + 1))

end TapeVM.Decimal
