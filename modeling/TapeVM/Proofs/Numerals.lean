import TapeVM.Decimal
import TapeVM.Decimal.Reader

/-! Numerals read back, and how long they are. The digits of a number are worth that number, so a
numeral with its sign gives the integer it was made from, however large. A host that limits the
digits can write what is below a power of ten, which bytes and all sizes it can hold are. -/
namespace TapeVM
namespace Decimal

theorem digits_of_lt {n : Nat} (small : n < 10) : digits n = [digit n] := by
  rw [digits, if_pos small]

theorem digits_of_le {n : Nat} (large : 10 ≤ n) :
    digits n = digits (n / 10) ++ [digit (n % 10)] := by
  rw [digits, if_neg (Nat.not_lt.2 large)]

theorem digitValue?_digit {value : Nat} (lt : value < 10) :
    digitValue? (digit value) = some value := by
  revert value
  decide

theorem digit_ne {value : Nat} (lt : value < 10) : digit value ≠ '_' ∧ digit value ≠ '-' := by
  revert value
  decide

theorem exists_of_mem_digits {n : Nat} {c : Char} (member : c ∈ digits n) :
    ∃ value < 10, c = digit value := by
  induction n using digits.induct with
  | case1 n small =>
    rw [digits_of_lt small, List.mem_singleton] at member
    exact ⟨n, small, member⟩
  | case2 n large ih =>
    rw [digits_of_le (Nat.not_lt.1 large), List.mem_append, List.mem_singleton] at member
    rcases member with front | last
    · exact ih front
    · exact ⟨n % 10, Nat.mod_lt n (by decide), last⟩

theorem forall_mem_natural {P : Char → Prop} (digits : ∀ value < 10, P (digit value)) (n : Nat) :
    ∀ c ∈ (natural n).toList, P c := by
  intro c member
  rw [natural, String.toList_ofList] at member
  obtain ⟨value, lt, rfl⟩ := exists_of_mem_digits member
  exact digits value lt

theorem forall_mem_integer {P : Char → Prop} (minus : P '-') (digits : ∀ value < 10, P (digit value))
    (n : Int) : ∀ c ∈ (integer n).toList, P c := by
  cases n with
  | ofNat m => exact forall_mem_natural digits m
  | negSucc m =>
    rw [integer, String.toList_append]
    exact List.forall_mem_cons.2 ⟨minus, forall_mem_natural digits (m + 1)⟩

theorem digits_ne_nil (n : Nat) : digits n ≠ [] := by
  induction n using digits.induct with
  | case1 n small => simp [digits_of_lt small]
  | case2 n large => simp [digits_of_le (Nat.not_lt.1 large)]

theorem length_digits_le {m n : Nat} (le : m ≤ n) : (digits m).length ≤ (digits n).length := by
  induction n using digits.induct generalizing m with
  | case1 n small =>
    rw [digits_of_lt small, digits_of_lt (Nat.lt_of_le_of_lt le small)]
    exact Nat.le_refl 1
  | case2 n large ih =>
    rw [digits_of_le (Nat.not_lt.1 large), List.length_append, List.length_singleton]
    by_cases small : m < 10
    · rw [digits_of_lt small, List.length_singleton]
      omega
    · have shorter := ih (Nat.div_le_div_right le)
      rw [digits_of_le (Nat.not_lt.1 small), List.length_append, List.length_singleton]
      omega

theorem length_digits_of_lt {n k : Nat} (lt : n < Nat.pow 10 (k + 1)) :
    (digits n).length ≤ k + 1 := by
  induction k generalizing n with
  | zero => simp [digits_of_lt (by simpa using lt)]
  | succ k ih =>
    by_cases small : n < 10
    · rw [digits_of_lt small, List.length_singleton]
      omega
    · have shorter := ih (Nat.div_lt_of_lt_mul (Nat.lt_of_lt_of_eq lt (Nat.mul_comm _ 10)))
      rw [digits_of_le (Nat.not_lt.1 small), List.length_append, List.length_singleton]
      omega

theorem lt_length_digits_of_le {n k : Nat} (le : Nat.pow 10 k ≤ n) : k < (digits n).length := by
  induction k generalizing n with
  | zero => exact List.length_pos_iff.2 (digits_ne_nil n)
  | succ k ih =>
    have positive : 1 ≤ Nat.pow 10 k := Nat.pow_pos (by decide)
    have split : Nat.pow 10 (k + 1) = 10 * Nat.pow 10 k := Nat.mul_comm _ 10
    have front := ih (n := n / 10) (by omega)
    rw [digits_of_le (by omega), List.length_append, List.length_singleton]
    omega

theorem length_digits_le_iff {n k : Nat} (positive : 0 < k) :
    (digits n).length ≤ k ↔ n < Nat.pow 10 k := by
  constructor
  · exact fun short => Nat.not_le.1 fun large => Nat.not_lt.2 short (lt_length_digits_of_le large)
  · obtain ⟨k, rfl⟩ := Nat.exists_eq_succ_of_ne_zero (Nat.ne_of_gt positive)
    exact length_digits_of_lt

theorem eq_zero_of_head?_digits {n : Nat} (zero : (digits n).head? = some '0') : n = 0 := by
  induction n using digits.induct with
  | case1 n small =>
    rw [digits_of_lt small, List.head?_cons] at zero
    exact (by decide : ∀ value < 10, some (digit value) = some '0' → value = 0) n small zero
  | case2 n large ih =>
    have front : (digits (n / 10)).head? = some '0' := by
      rw [digits_of_le (Nat.not_lt.1 large), List.head?_append] at zero
      cases first : (digits (n / 10)).head? with
      | none => exact absurd (List.head?_eq_none_iff.1 first) (digits_ne_nil _)
      | some c => simpa [first] using zero
    have := ih front
    omega

theorem isDigit_of_mem_digits {n : Nat} {c : Char} (member : c ∈ digits n) : c.isDigit := by
  obtain ⟨value, lt, rfl⟩ := exists_of_mem_digits member
  exact (by decide : ∀ value < 10, (digit value).isDigit) value lt

theorem digits_append_ne_minus (n : Nat) (rest tail : List Char) :
    digits n ++ rest ≠ '-' :: tail := by
  obtain ⟨c, others, first⟩ := List.exists_cons_of_ne_nil (digits_ne_nil n)
  obtain ⟨value, lt, rfl⟩ := exists_of_mem_digits (c := c) (n := n) (by simp [first])
  rw [first, List.cons_append]
  exact fun same => (digit_ne lt).2 (List.cons.inj same).1

theorem readDigits_digit {value next : Nat} (lt : next < 10) (rest : List Char) :
    readDigits value (digit next :: rest) = readDigits (10 * value + next) rest := by
  rw [readDigits, digitValue?_digit lt]
  intro c tail underscore
  exact absurd underscore (digit_ne lt).1

/-- Digits are read one after the other, behind any that have been read before. -/
theorem readDigits_digits (value n : Nat) (rest : List Char) :
    readDigits value (digits n ++ rest) =
      readDigits (value * Nat.pow 10 (digits n).length + n) rest := by
  induction n using digits.induct generalizing rest with
  | case1 n small =>
    rw [digits_of_lt small, List.singleton_append, readDigits_digit small, List.length_singleton,
      Nat.mul_comm 10]
  | case2 n large ih =>
    have worth : 10 * (value * Nat.pow 10 (digits (n / 10)).length + n / 10) + n % 10 =
        value * Nat.pow 10 ((digits (n / 10)).length + 1) + n := by
      rw [Nat.mul_add, Nat.add_assoc, Nat.div_add_mod, Nat.mul_left_comm, Nat.mul_comm 10]
      rfl
    rw [digits_of_le (Nat.not_lt.1 large), List.append_assoc, List.singleton_append, ih,
      readDigits_digit (Nat.mod_lt n (by decide)), List.length_append, List.length_singleton, worth]

theorem readDigits_zero_digits (n : Nat) : readDigits 0 (digits n) = some n := by
  simpa [readDigits] using readDigits_digits 0 n []

theorem natural_injective : Function.Injective natural := by
  intro m n same
  have read := congrArg (readDigits 0) (String.ofList_injective same)
  rw [readDigits_zero_digits, readDigits_zero_digits] at read
  exact Option.some.inj read

/-- The integer a numeral stands for, where one more minus sign is all that may be in front. -/
def readNumeral? : List Char → Option Int
  | '-' :: numeral => (readDigits 0 numeral).map fun n => -(n : Int)
  | numeral => (readDigits 0 numeral).map Int.ofNat

theorem readNumeral?_integer (n : Int) : readNumeral? (integer n).toList = some n := by
  cases n with
  | ofNat m =>
    have unsigned : ∀ tail, digits m ≠ '-' :: tail := fun tail => by
      simpa using digits_append_ne_minus m [] tail
    rw [integer, natural, String.toList_ofList, readNumeral?.eq_2 _ unsigned, readDigits_zero_digits]
    rfl
  | negSucc m =>
    have signed : (integer (.negSucc m)).toList = '-' :: digits (m + 1) := by
      simp [integer, natural]
    rw [signed, readNumeral?, readDigits_zero_digits]
    rfl

end Decimal

namespace Host

variable {host : Host} {m n : Int}

theorem writes_iff : host.Writes n ↔ ∀ limit ∈ host.digits, n.natAbs < Nat.pow 10 limit := by
  refine forall₂_congr fun limit found => Decimal.length_digits_le_iff ?_
  have := (host.roomy limit found).1
  omega

theorem Writes.of_le (writes : host.Writes n) (le : m.natAbs ≤ n.natAbs) : host.Writes m :=
  fun limit found => Nat.le_trans (Decimal.length_digits_le le) (writes limit found)

theorem Writes.of_natCast_le {small large : Nat} (writes : host.Writes large) (le : small ≤ large) :
    host.Writes small :=
  writes.of_le (by rwa [Int.natAbs_natCast, Int.natAbs_natCast])

/-- Every host can write a number of few digits. -/
theorem writes_of_natAbs_le (small : n.natAbs ≤ 9223372036854775807) : host.Writes n := by
  intro limit found
  have large := (host.roomy limit found).1
  have short : (Decimal.digits n.natAbs).length ≤ 18 + 1 :=
    Decimal.length_digits_of_lt (Nat.lt_of_le_of_lt small (by decide))
  omega

theorem writes_of_shortage?_eq_none (positive : 0 ≤ n) (room : host.shortage? n = none) :
    host.Writes n := by
  intro limit found
  obtain ⟨-, last, index, bound⟩ := host.roomy limit found
  have fits := (shortage?_eq_none_iff.1 room).1 last index
  exact writes_of_natAbs_le (by omega) limit found

end Host
end TapeVM
