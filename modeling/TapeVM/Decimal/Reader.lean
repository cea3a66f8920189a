import TapeVM.Decimal.Digit
import TapeVM.Host
import TapeVM.Text.Blank

/-! Reading integers as people write them: blanks around the numeral, a sign, the digits of any
script, leading zeros, and single underscores between digits are all allowed. Leading zeros count
for the limit that the host sets. -/
namespace TapeVM.Decimal

/-- The value of a digit string that goes on after digits worth `value`. -/
def readDigits (value : Nat) : List Char → Option Nat
  | [] => some value
  | '_' :: c :: rest =>
    match digitValue? c with
    | some next => readDigits (10 * value + next) rest
    | none => none
  | c :: rest =>
    match digitValue? c with
    | some next => readDigits (10 * value + next) rest
    | none => none

def readNatural? (host : Host) (numeral : List Char) : Option Nat :=
  if ∀ limit ∈ host.digits, numeral.countP (· != '_') ≤ limit then
    match numeral with
    | [] => none
    | c :: rest => (digitValue? c).bind (readDigits · rest)
  else none

def readInteger? (host : Host) (text : String) : Option Int :=
  match Text.trimBlanks text.toList with
  | '-' :: numeral => (readNatural? host numeral).map fun n => -(n : Int)
  | '+' :: numeral => (readNatural? host numeral).map Int.ofNat
  | numeral => (readNatural? host numeral).map Int.ofNat

end TapeVM.Decimal
