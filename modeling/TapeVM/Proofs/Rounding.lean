import Mathlib.Algebra.Order.Field.Basic
import Mathlib.Data.Rat.Cast.Order
import Mathlib.Tactic.FieldSimp
import Mathlib.Tactic.Linarith
import Mathlib.Tactic.Ring
import TapeVM.Decimal.Fixed
import TapeVM.Proofs.Grouping

/-! Numerals with a point. One denotes a multiple of its last place: of all these multiples the one
nearest to the number that was printed, and of two as near the even one. -/
namespace TapeVM.Decimal

/-- Every other multiple of `10 ^ -places` is farther from `x`, or as far from it where the number
of units is even. -/
def Nearest (places : Nat) (x : ℚ) (units : ℤ) : Prop :=
  ∀ other : ℤ, other ≠ units →
    |x - units / 10 ^ places| < |x - other / 10 ^ places| ∨
      |x - units / 10 ^ places| = |x - other / 10 ^ places| ∧ Even units

/-- A whole number at most a half away from `x`, and an even one if a half away. -/
def WithinHalf (x : ℚ) (n : ℤ) : Prop := |x - n| ≤ 1 / 2 ∧ (|x - n| = 1 / 2 → Even n)

theorem WithinHalf.neg {x : ℚ} {n : ℤ} (within : WithinHalf x n) : WithinHalf (-x) (-n) := by
  have same : |-x - ((-n : ℤ) : ℚ)| = |x - n| := by
    rw [Int.cast_neg, neg_sub_neg, abs_sub_comm]
  rw [WithinHalf, same, even_neg]
  exact within

/-- Two whole numbers are one apart, so that no other is nearer than one within a half. -/
theorem nearest_of_withinHalf {places : Nat} {x : ℚ} {units : ℤ}
    (within : WithinHalf (x * 10 ^ places) units) : Nearest places x units := by
  intro other different
  have positive : (0 : ℚ) < 10 ^ places := by positivity
  have scaled : ∀ n : ℤ, |x - n / 10 ^ places| = |x * 10 ^ places - n| / 10 ^ places := by
    intro n
    rw [← abs_of_pos positive, ← abs_div, abs_of_pos positive]
    field_simp
  have apart : (1 : ℚ) ≤ |(other : ℚ) - units| := by
    have := Int.one_le_abs (sub_ne_zero.2 different)
    exact_mod_cast this
  have through := abs_sub_le (other : ℚ) (x * 10 ^ places) units
  rw [abs_sub_comm (other : ℚ) (x * 10 ^ places)] at through
  rw [scaled, scaled, div_lt_div_iff_of_pos_right positive, div_left_inj' positive.ne']
  obtain ⟨half, tie⟩ := within
  rcases half.lt_or_eq with less | equal
  · exact .inl (by linarith)
  · rcases lt_or_ge |x * 10 ^ places - units| |x * 10 ^ places - other| with nearer | farther
    · exact .inl nearer
    · exact .inr ⟨by linarith, tie equal⟩

theorem withinHalf_of_rest {x : ℚ} {n : ℤ} {divisor : Nat} (positive : 0 < divisor) (rest : ℤ)
    (split : x = n + rest / divisor) (half : 2 * |rest| ≤ divisor)
    (tie : 2 * |rest| = divisor → Even n) : WithinHalf x n := by
  have scale : (0 : ℚ) < divisor := by exact_mod_cast positive
  have error : |x - n| = |rest| / divisor := by
    rw [split, add_sub_cancel_left, abs_div, abs_of_pos scale]
    push_cast
    rfl
  rw [WithinHalf, error, div_le_div_iff₀ scale two_pos, div_eq_div_iff scale.ne' two_ne_zero]
  constructor
  · exact_mod_cast (by omega : |rest| * 2 ≤ 1 * divisor)
  · intro equal
    have : |rest| * 2 = 1 * divisor := by exact_mod_cast equal
    exact tie (by omega)

theorem natCast_eq_mul_div_add_mod (dividend divisor : Nat) : (dividend : ℚ) =
    divisor * (dividend / divisor : ℕ) + (dividend % divisor : ℕ) := by
  exact_mod_cast (Nat.div_add_mod dividend divisor).symm

theorem roundedQuotient_withinHalf (dividend : Nat) {divisor : Nat} (positive : 0 < divisor) :
    WithinHalf ((dividend : ℚ) / divisor) (roundedQuotient dividend divisor : ℕ) := by
  have scale : (divisor : ℚ) ≠ 0 := by exact_mod_cast positive.ne'
  have whole := natCast_eq_mul_div_add_mod dividend divisor
  have below := Nat.mod_lt dividend positive
  generalize quotient_eq : dividend / divisor = quotient at whole
  generalize rest_eq : dividend % divisor = rest at whole below
  simp only [roundedQuotient, quotient_eq, rest_eq]
  split
  case isTrue up =>
    have size : |(rest : ℤ) - divisor| = divisor - rest := by
      rw [abs_of_neg (by omega)]
      omega
    refine withinHalf_of_rest positive (rest - divisor) ?_ ?_ ?_
    · rw [whole]
      push_cast
      field_simp
      ring
    · rw [size]
      omega
    · intro equal
      rw [size] at equal
      have odd : quotient % 2 = 1 := by omega
      exact (Int.even_coe_nat _).2 (Nat.even_iff.2 (by omega))
  case isFalse down =>
    refine withinHalf_of_rest positive rest ?_ ?_ ?_
    · rw [whole]
      push_cast
      field_simp
    · rw [Nat.abs_cast]
      omega
    · rw [Nat.abs_cast]
      intro equal
      exact (Int.even_coe_nat _).2 (Nat.even_iff.2 (by omega))

theorem nearestUnits_withinHalf (places significand : Nat) (exponent : Int) :
    WithinHalf (significand * 2 ^ exponent * 10 ^ places)
      (nearestUnits places significand exponent) := by
  have power : (2 : ℚ) ^ exponent = 2 ^ exponent.toNat / 2 ^ (-exponent).toNat := by
    obtain ⟨n, rfl | rfl⟩ := exponent.eq_nat_or_neg <;> simp
  have quotient : (significand : ℚ) * 2 ^ exponent * 10 ^ places =
      (significand * Nat.pow 10 places * Nat.pow 2 exponent.toNat : ℕ) /
        (Nat.pow 2 (-exponent).toNat : ℕ) := by
    simp only [power, Nat.pow_eq]
    push_cast
    ring
  rw [quotient]
  exact roundedQuotient_withinHalf _ (Nat.pow_pos (by decide))

/-- A numeral with a point: an integer part with no zero too many, and exactly `places` digits
behind the point. -/
structure Pointed (places : Nat) (negative : Bool) (text whole fraction : List Char) : Prop where
  text : text = minus negative ++ (whole ++ '.' :: fraction)
  filled : whole ≠ []
  leading : whole.head? = some '0' → whole = ['0']
  precision : fraction.length = places
  digits : ∀ c ∈ whole ++ fraction, c.isDigit

/-- The number that digits stand for with a point between them. -/
def readUnsigned? (text : List Char) : Option ℚ :=
  let fraction := (text.dropWhile (· ≠ '.')).drop 1
  (readDigits 0 (text.takeWhile (· ≠ '.'))).bind fun whole =>
    (readDigits 0 fraction).map fun units => (whole : ℚ) + units / 10 ^ fraction.length

/-- The number a numeral stands for, where one more minus sign may be in front. -/
def readPointed? : List Char → Option ℚ
  | '-' :: numeral => (readUnsigned? numeral).map (- ·)
  | numeral => readUnsigned? numeral

theorem readDigits_zeros (count : Nat) (rest : List Char) :
    readDigits 0 (List.replicate count '0' ++ rest) = readDigits 0 rest := by
  induction count with
  | zero => rfl
  | succ count ih =>
    rw [List.replicate_succ, List.cons_append]
    exact (readDigits_digit (by decide : 0 < 10) _).trans ih

theorem forall_ne_point {text : List Char} (digits : ∀ c ∈ text, c.isDigit) :
    ∀ c ∈ text, decide (c ≠ '.') := by
  intro c member
  have digit := digits c member
  refine decide_eq_true ?_
  rintro rfl
  exact absurd digit (by decide)

theorem readUnsigned?_of_pointed {places a b : Nat} {negative : Bool}
    {text whole fraction : List Char} (numeral : Pointed places negative text whole fraction)
    (front : readDigits 0 whole = some a) (behind : readDigits 0 fraction = some b) :
    readUnsigned? (whole ++ '.' :: fraction) = some ((a : ℚ) + b / 10 ^ places) := by
  have clear := forall_ne_point (List.forall_mem_append.1 numeral.digits).1
  simp only [readUnsigned?, List.takeWhile_append_of_pos clear,
    List.dropWhile_append_of_pos clear]
  simp [front, behind, numeral.precision]

/-- Zeros fill the places in front of the units that are left. -/
theorem pointed_numeral {places : Nat} (positive : 0 < places) (negative : Bool) (units : Nat) :
    Pointed places negative (minus negative ++ pointed places units)
      (digits (units / 10 ^ places))
      ((digits (units % 10 ^ places)).leftpad places '0') where
  text := rfl
  filled := digits_ne_nil _
  leading := by
    intro zero
    rw [eq_zero_of_head?_digits zero]
    exact digits_of_lt (by decide)
  precision := by
    obtain ⟨k, rfl⟩ := Nat.exists_eq_add_one.2 positive
    rw [List.length_leftpad]
    exact max_eq_left (length_digits_of_lt (Nat.mod_lt _ (by positivity)))
  digits := by
    intro c member
    rw [List.leftpad, List.mem_append, List.mem_append] at member
    rcases member with front | zeros | behind
    · exact isDigit_of_mem_digits front
    · rw [List.eq_of_mem_replicate zeros]
      decide
    · exact isDigit_of_mem_digits behind

theorem readPointed?_pointed {places : Nat} (positive : 0 < places) (negative : Bool)
    (units : Nat) : readPointed? (minus negative ++ pointed places units) =
      some (((if negative then -units else units : ℤ) : ℚ) / 10 ^ places) := by
  have numeral := pointed_numeral positive negative units
  have behind : readDigits 0 ((digits (units % 10 ^ places)).leftpad places '0') =
      some (units % 10 ^ places) := by
    rw [List.leftpad, readDigits_zeros, readDigits_zero_digits]
  have unsigned : readUnsigned? (pointed places units) = some ((units : ℚ) / 10 ^ places) := by
    have scale : (10 : ℚ) ^ places ≠ 0 := by positivity
    have whole := natCast_eq_mul_div_add_mod units (10 ^ places)
    refine (readUnsigned?_of_pointed numeral (readDigits_zero_digits _) behind).trans
      (congrArg _ ?_)
    rw [whole]
    push_cast
    field_simp
  cases negative with
  | true => simp [minus, readPointed?, unsigned, neg_div]
  | false =>
    have begins : ∀ tail, pointed places units ≠ '-' :: tail := digits_append_ne_minus _ _
    exact (readPointed?.eq_2 _ begins).trans unsigned

theorem toList_fixed (places : Nat) (negative : Bool) (significand : Nat) (exponent : Int) :
    (fixed places (.finite negative significand exponent)).toList =
      minus negative ++ pointed places (nearestUnits places significand exponent) := by
  cases negative <;> simp [fixed, signed, minus]

/-- The text of a finite double denotes the nearest multiple of its last place. -/
theorem fixed_nearest {places : Nat} (positive : 0 < places) (negative : Bool) (significand : Nat)
    (exponent : Int) :
    ∃ (whole fraction : List Char) (units : ℤ),
      Pointed places negative (fixed places (.finite negative significand exponent)).toList whole
        fraction ∧
      readPointed? (fixed places (.finite negative significand exponent)).toList =
        some ((units : ℚ) / 10 ^ places) ∧
      Nearest places ((if negative then -significand else significand : ℤ) * 2 ^ exponent)
        units := by
  rw [toList_fixed]
  refine ⟨_, _, _, pointed_numeral positive negative _, readPointed?_pointed positive negative _,
    nearest_of_withinHalf ?_⟩
  have within := nearestUnits_withinHalf places significand exponent
  cases negative with
  | true => simpa [neg_mul] using within.neg
  | false => simpa using within

end TapeVM.Decimal
