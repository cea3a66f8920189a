import Mathlib.Data.Int.ModEq
import TapeVM.Failure
import TapeVM.Proofs.Beside

/-! Folding: one operation with an amount against single operations, as many as the amount says. On
the tape the two come to the same, except that a shift to the right that does not fit is not made in
part, nor is a write that is too long for the host. Amounts of any sign and size add up, modulo 256.
-/
namespace TapeVM.Machine

variable {m : Machine}

theorem add_of_lt (inside : m.cursor < m.tape.size) (a : Int) :
    m.add a =
      ({ m with tape := m.tape.set m.cursor (m.tape[m.cursor] + UInt8.ofInt a) }, none) :=
  onCell_of_lt inside _

theorem sub_eq_add_neg (m : Machine) (a : Int) : m.sub a = m.add (-a) := by
  rw [sub, add, UInt8.ofInt_neg]
  simp only [UInt8.sub_eq_add_neg]

theorem add_zero (inside : m.cursor < m.tape.size) : m.add 0 = (m, none) := by
  have zero : UInt8.ofInt 0 = 0 := rfl
  rw [add_of_lt inside, zero, UInt8.add_zero, Array.set_getElem_self]

end TapeVM.Machine
