import Mathlib
import TapeVM.Proofs.Rounding
import TapeVM.Statistics

/-! What the numbers of the statistics table say. A float is taken for the exact number that it
stands for, and its bits have been read right if they give that number. -/
namespace TapeVM.Decimal

open Float.Model Float.Model.UnpackedFloat

def isNegative : Sign → Bool
  | .negative => true
  | .positive => false

/-- A zero of either sign, and else a sign, a whole number and a power of two. -/
def Binary64.ofUnpacked : UnpackedFloat → Binary64
  | .infinity sign => .infinite (isNegative sign)
  | .notANumber => .undefined
  | .zero sign => .finite (isNegative sign) 0 (-1074)
  | .finite sign mantissa exponent _ => .finite (isNegative sign) mantissa exponent

section Fields

variable (bits : UInt64)

theorem toNat_unpackMantissa :
    (@unpackMantissa Format.binary64 bits.toBitVec).toNat = bits.toNat % 0x10000000000000 := by
  simp [unpackMantissa_def]

theorem toNat_unpackExponent :
    (@unpackExponent Format.binary64 bits.toBitVec).toNat =
      bits.toNat / 0x10000000000000 % 0x800 := by
  simp [unpackExponent_def, Nat.shiftRight_eq_div_pow]

theorem isNegative_unpackSign :
    isNegative (Sign.ofBitVec (@unpackSign Format.binary64 bits.toBitVec)) =
      decide (0x8000000000000000 ≤ bits.toNat) := by
  have below := bits.toNat_lt
  have top : (@unpackSign Format.binary64 bits.toBitVec).toNat =
      bits.toNat / 0x8000000000000000 % 2 := by
    simp [unpackSign_def, Nat.shiftRight_eq_div_pow]
  have plus : @unpackSign Format.binary64 bits.toBitVec = 0#1 ↔
      bits.toNat < 0x8000000000000000 := by
    rw [← BitVec.toNat_inj, top, BitVec.toNat_ofNat]
    omega
  rw [Sign.ofBitVec]
  split
  case isTrue positive => exact (decide_eq_false (Nat.not_le.2 (plus.1 positive))).symm
  case isFalse negative => exact (decide_eq_true (Nat.not_lt.1 (mt plus.2 negative))).symm

end Fields

theorem toNat_implicit_one (mantissa : BitVec 52) :
    (1#1 ++ mantissa).toNat = 0x10000000000000 + mantissa.toNat := by
  rw [BitVec.toNat_append, ← Nat.shiftLeft_add_eq_or_of_lt mantissa.isLt]
  rfl

/-- The three fields have the values that the bits of the whole word give them. -/
theorem ofBits_eq_ofUnpacked (bits : UInt64) :
    Binary64.ofBits bits = .ofUnpacked (UnpackedFloat.unpack Format.binary64 bits.toBitVec) := by
  have highest : @unpackExponent Format.binary64 bits.toBitVec = -1#_ ↔
      bits.toNat / 0x10000000000000 % 0x800 = 0x7ff := by
    rw [← BitVec.toNat_inj, toNat_unpackExponent]
    rfl
  have lowest : @unpackExponent Format.binary64 bits.toBitVec = 0#_ ↔
      bits.toNat / 0x10000000000000 % 0x800 = 0 := by
    rw [← BitVec.toNat_inj, toNat_unpackExponent]
    rfl
  have empty : @unpackMantissa Format.binary64 bits.toBitVec = 0#_ ↔
      bits.toNat % 0x10000000000000 = 0 := by
    rw [← BitVec.toNat_inj, toNat_unpackMantissa]
    rfl
  simp only [Binary64.ofBits, UnpackedFloat.unpack, highest, lowest, empty]
  by_cases top : bits.toNat / 0x10000000000000 % 0x800 = 0x7ff
  · rw [if_pos top, if_pos top]
    by_cases bare : bits.toNat % 0x10000000000000 = 0
    · rw [if_pos bare, if_pos bare, Binary64.ofUnpacked, isNegative_unpackSign]
    · rw [if_neg bare, if_neg bare, Binary64.ofUnpacked]
  · rw [if_neg top, if_neg top]
    by_cases bottom : bits.toNat / 0x10000000000000 % 0x800 = 0
    · rw [if_pos bottom, if_pos bottom]
      by_cases bare : bits.toNat % 0x10000000000000 = 0
      · rw [dif_pos bare, Binary64.ofUnpacked, isNegative_unpackSign, bare]
      · rw [dif_neg bare, Binary64.ofUnpacked, isNegative_unpackSign, toNat_unpackMantissa,
          toNat_unpackExponent, bottom]
        rfl
    · rw [if_neg bottom, if_neg bottom, Binary64.ofUnpacked, isNegative_unpackSign,
        toNat_implicit_one, toNat_unpackMantissa, toNat_unpackExponent]
      rfl

/-- The number a float stands for. -/
def rational? (d : Float) : Option ℚ :=
  match d.toModel.unpack with
  | .zero _ => some 0
  | .finite sign mantissa exponent _ => some (sign.apply mantissa * 2 ^ exponent)
  | _ => none

/-- Below zero, or the zero with a minus sign. -/
def BelowZero (d : Float) : Prop :=
  (∃ x, rational? d = some x ∧ x < 0) ∨ d.toModel.unpack = .zero .negative

theorem exists_ofBits {d : Float} (finite : d.isFinite) :
    ∃ (negative : Bool) (significand : Nat) (exponent : ℤ),
      Binary64.ofBits d.toBits = .finite negative significand exponent ∧
      rational? d =
        some (((if negative then -significand else significand : ℤ) : ℚ) * 2 ^ exponent) ∧
      (negative ↔ BelowZero d) := by
  have bits : Binary64.ofBits d.toBits = .ofUnpacked d.toModel.unpack :=
    ofBits_eq_ofUnpacked d.toBits
  change d.toModel.unpack.isFinite at finite
  rw [bits, BelowZero, rational?]
  cases unpacked : d.toModel.unpack with
  | infinity sign => simp [unpacked, UnpackedFloat.isFinite] at finite
  | notANumber => simp [unpacked, UnpackedFloat.isFinite] at finite
  | zero sign =>
    refine ⟨_, _, _, rfl, by simp, ?_⟩
    cases sign <;> simp [isNegative]
  | finite sign mantissa exponent positive =>
    refine ⟨_, _, _, rfl, ?_, ?_⟩
    · cases sign <;> simp [isNegative, Sign.apply]
    · have power : (0 : ℚ) < mantissa * 2 ^ exponent :=
        mul_pos (by exact_mod_cast positive) (zpow_pos two_pos exponent)
      cases sign <;> simp [isNegative, Sign.apply, power, power.le]

end TapeVM.Decimal

namespace TapeVM

theorem Host.not_writes_pow {host : Host} {limit : Nat} (limited : host.digits = some limit) :
    ¬ host.Writes (10 ^ limit) := by
  intro writes
  have less := Host.writes_iff.1 writes limit limited
  rw [Int.natAbs_pow] at less
  exact Nat.lt_irrefl _ less

namespace Measure

open Decimal

/-- Integers with all their digits and floats to the nearest thousandth are what the values of the
table say. All of them are written, save integers with more digits than the limit, if the host has
one. -/
theorem text_is_faithful (host : Host) :
    (∀ n : ℤ, host.Writes n → ∃ text first others, write host (.count n) = .ok text ∧
      Grouping n text.toList first others ∧
      text.toList.filter (· ≠ ',') = (integer n).toList ∧
      readNumeral? (text.toList.filter (· ≠ ',')) = some n) ∧
    (∀ n : ℤ, ¬ host.Writes n →
      ∃ limit, host.digits = some limit ∧ write host (.count n) = .error limit) ∧
    (∀ d : Float, d.isFinite → ∃ x, rational? d = some x ∧
      ∃ (numeral : List Char) (negative : Bool) (whole fraction : List Char) (units : ℤ),
        write host (.seconds d) = .ok (String.ofList (numeral ++ ['s'])) ∧
        Pointed 3 negative numeral whole fraction ∧ (negative ↔ BelowZero d) ∧
        readPointed? numeral = some ((units : ℚ) / 10 ^ 3) ∧ Nearest 3 x units) := by
  have numbers (n : ℤ) : (∀ k ∈ (count n).numbers, host.Writes k) ↔ host.Writes n := by
    simp [Measure.numbers]
  refine ⟨fun n writes => ?_, fun n refused => ?_, fun d finite => ?_⟩
  · obtain ⟨first, others, grouping, -⟩ := exists_grouping n
    refine ⟨grouped n, first, others, Host.write_of_writes ((numbers n).2 writes), grouping,
      filter_grouped n, ?_⟩
    rw [filter_grouped, readNumeral?_integer]
  · exact Host.exists_write_eq_error (mt (numbers n).1 refused) _
  · obtain ⟨negative, significand, exponent, bits, worth, sign⟩ := exists_ofBits finite
    obtain ⟨whole, fraction, units, pointed, read, nearest⟩ :=
      fixed_nearest (by decide : 0 < 3) negative significand exponent
    refine ⟨_, worth, _, negative, whole, fraction, units, ?_, pointed, sign, read, nearest⟩
    have value : (seconds d).text =
        String.ofList ((fixed 3 (.finite negative significand exponent)).toList ++ ['s']) := by
      rw [text, bits, String.ofList_append, String.ofList_toList]
    rw [← value]
    exact Host.write_of_writes (by simp [Measure.numbers])

/-- On a usual host the least integer that has more digits than the limit is not written. -/
theorem huge_count_is_not_written : write {} (.count (10 ^ 4300)) = .error 4300 :=
  Host.write_eq_error_iff.2 ⟨rfl, fun writes => Host.not_writes_pow rfl (writes _ (.head _))⟩

/-- A sixteenth below zero lies half-way between two thousandths. -/
theorem text_is_faithful_tie :
    rational? (.ofBits 0xbfb0000000000000) = some (-1 / 16) ∧
    write {} (.seconds (.ofBits 0xbfb0000000000000)) = .ok "-0.062s" ∧
    (Float.ofBits 0xbfb0000000000000).isFinite ∧
    ∃ x, rational? (.ofBits 0xbfb0000000000000) = some x ∧
      ∃ (numeral : List Char) (negative : Bool) (whole fraction : List Char) (units : ℤ),
        write {} (.seconds (.ofBits 0xbfb0000000000000)) = .ok (String.ofList (numeral ++ ['s'])) ∧
        Pointed 3 negative numeral whole fraction ∧
        (negative ↔ BelowZero (.ofBits 0xbfb0000000000000)) ∧
        readPointed? numeral = some ((units : ℚ) / 10 ^ 3) ∧ Nearest 3 x units :=
  ⟨by decide +kernel, by decide +kernel, by decide,
    (text_is_faithful {}).2.2 (.ofBits 0xbfb0000000000000) (by decide)⟩

end Measure
end TapeVM
