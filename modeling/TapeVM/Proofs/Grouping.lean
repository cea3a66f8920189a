import TapeVM.Decimal.Grouped
import TapeVM.Proofs.Numerals

/-! Digits in groups. Between the commas stand the digits of the number, one to three of them in
front and three in every other group. -/
namespace TapeVM.Decimal

theorem intercalate_concat {α : Type} (separator first last : List α) (others : List (List α)) :
    separator.intercalate (first :: (others ++ [last])) =
      separator.intercalate (first :: others) ++ (separator ++ last) := by
  induction others generalizing first with
  | nil => simp
  | cons other others ih => simp [ih]

theorem filter_intercalate {α : Type} [DecidableEq α] {a : α} {groups : List (List α)}
    (clear : ∀ group ∈ groups, a ∉ group) :
    ([a].intercalate groups).filter (· ≠ a) = groups.flatten := by
  induction groups with
  | nil => rfl
  | cons group groups ih =>
    obtain ⟨first, rest⟩ := List.forall_mem_cons.1 clear
    have kept : group.filter (· ≠ a) = group :=
      List.filter_eq_self.2 fun b member => decide_eq_true (ne_of_mem_of_not_mem member first)
    cases groups with
    | nil => simpa using kept
    | cons other groups =>
      rw [List.intercalate_cons_cons, List.filter_append, List.filter_append, kept, ih rest]
      simp

theorem digits_eq_append_threeDigits {n : Nat} (large : 1000 ≤ n) :
    digits n = digits (n / 1000) ++ threeDigits (n % 1000) := by
  have units : n % 10 = n % 1000 % 10 := by omega
  have tens : n / 10 % 10 = n % 1000 / 10 % 10 := by omega
  have hundreds : n / 10 / 10 % 10 = n % 1000 / 100 := by omega
  have rest : n / 10 / 10 / 10 = n / 1000 := by omega
  rw [digits_of_le (by omega : 10 ≤ n), digits_of_le (by omega : 10 ≤ n / 10),
    digits_of_le (by omega : 10 ≤ n / 10 / 10), units, tens, hundreds, rest]
  simp [threeDigits]

theorem exists_groups (n : Nat) : ∃ first others,
    groupedDigits n = [','].intercalate (first :: others) ∧ 1 ≤ first.length ∧ first.length ≤ 3 ∧
      (∀ group ∈ others, group.length = 3) ∧ first ++ others.flatten = digits n := by
  induction n using groupedDigits.induct with
  | case1 n small =>
    refine ⟨digits n, [], ?_, ?_, length_digits_of_lt small, by simp, by simp⟩
    · rw [groupedDigits, if_pos small, List.intercalate_singleton]
    · exact List.length_pos_iff.2 (digits_ne_nil n)
  | case2 n large ih =>
    obtain ⟨first, others, text, filled, few, three, whole⟩ := ih
    refine ⟨first, others ++ [threeDigits (n % 1000)], ?_, filled, few, ?_, ?_⟩
    · rw [groupedDigits, if_neg large, text, intercalate_concat]
      rfl
    · exact List.forall_mem_append.2 ⟨three, by simp [threeDigits]⟩
    · rw [digits_eq_append_threeDigits (Nat.not_lt.1 large), ← whole]
      simp

def minus (negative : Prop) [Decidable negative] : List Char := if negative then ['-'] else []

theorem toList_integer (n : Int) : (integer n).toList = minus (n < 0) ++ digits n.natAbs := by
  cases n with
  | ofNat m => simp [integer, natural, minus]
  | negSucc m => simp [integer, natural, minus, Int.negSucc_lt_zero]

theorem toList_grouped (n : Int) :
    (grouped n).toList = minus (n < 0) ++ groupedDigits n.natAbs := by
  cases n with
  | ofNat m => simp [grouped, minus]
  | negSucc m => simp [grouped, minus, Int.negSucc_lt_zero]

/-- A numeral with commas: one to three digits in the first group and three in each of the others,
behind the sign. A zero comes first only in zero itself. -/
structure Grouping (n : Int) (text : List Char) (first : List Char) (others : List (List Char)) :
    Prop where
  text : text = minus (n < 0) ++ [','].intercalate (first :: others)
  filled : 1 ≤ first.length
  few : first.length ≤ 3
  three : ∀ group ∈ others, group.length = 3
  digits : ∀ group ∈ first :: others, ∀ c ∈ group, c.isDigit
  leading : first.head? = some '0' → first = ['0'] ∧ others = []

theorem exists_grouping (n : Int) : ∃ first others, Grouping n (grouped n).toList first others ∧
    first ++ others.flatten = digits n.natAbs := by
  obtain ⟨first, others, text, filled, few, three, whole⟩ := exists_groups n.natAbs
  refine ⟨first, others, ⟨by rw [toList_grouped, text], filled, few, three, ?_, ?_⟩, whole⟩
  · intro group member c inside
    have among : c ∈ (first :: others).flatten := List.mem_flatten_of_mem member inside
    rw [List.flatten_cons, whole] at among
    exact isDigit_of_mem_digits among
  · intro zero
    have head : (digits n.natAbs).head? = some '0' := by
      rw [← whole, List.head?_append, zero]
      rfl
    have single : first ++ others.flatten = ['0'] := by
      rw [whole, eq_zero_of_head?_digits head]
      exact digits_of_lt (by decide)
    obtain ⟨c, rest, rfl⟩ := List.exists_cons_of_length_pos filled
    obtain ⟨rfl, ended⟩ := List.cons.inj single
    obtain ⟨rfl, last⟩ := List.append_eq_nil_iff.1 ended
    refine ⟨rfl, List.eq_nil_iff_forall_not_mem.2 fun group member => ?_⟩
    have empty := List.flatten_eq_nil_iff.1 last group member
    have full := three group member
    rw [empty] at full
    exact absurd full (by decide)

theorem filter_grouped (n : Int) :
    (grouped n).toList.filter (· ≠ ',') = (integer n).toList := by
  obtain ⟨first, others, grouping, whole⟩ := exists_grouping n
  have clear : ∀ group ∈ first :: others, ',' ∉ group := fun group member comma =>
    absurd (grouping.digits group member ',' comma) (by decide)
  have sign : (minus (n < 0)).filter (· ≠ ',') = minus (n < 0) := by
    unfold minus
    split <;> rfl
  rw [grouping.text, List.filter_append, sign, filter_intercalate clear, List.flatten_cons, whole,
    toList_integer]

end TapeVM.Decimal
