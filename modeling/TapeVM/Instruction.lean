import TapeVM.Decimal
import TapeVM.Symbol
import TapeVM.Text.Justified

/-! Instructions of the virtual machine. A number that names no operation still makes an
instruction; it has no name, and no machine can carry it out. -/
namespace TapeVM

inductive Opcode where
  | add | sub | shiftLeft | shiftRight | jumpIfZero | jumpIfNonZero | input | output
  | unassigned (code : Int)
  deriving DecidableEq, Repr

namespace Opcode

def code : Opcode → Int
  | add => 1
  | sub => 2
  | shiftLeft => 3
  | shiftRight => 4
  | jumpIfZero => 5
  | jumpIfNonZero => 6
  | input => 7
  | output => 8
  | unassigned code => code

def ofCode : Int → Opcode
  | 1 => add
  | 2 => sub
  | 3 => shiftLeft
  | 4 => shiftRight
  | 5 => jumpIfZero
  | 6 => jumpIfNonZero
  | 7 => input
  | 8 => output
  | code => unassigned code

def name? : Opcode → Option String
  | add => some "Add"
  | sub => some "Sub"
  | shiftLeft => some "ShiftLeft"
  | shiftRight => some "ShiftRight"
  | jumpIfZero => some "JumpIfZero"
  | jumpIfNonZero => some "JumpIfNonZero"
  | input => some "Input"
  | output => some "Output"
  | unassigned _ => none

def ofSymbol : Symbol → Opcode
  | .increment => add
  | .decrement => sub
  | .moveLeft => shiftLeft
  | .moveRight => shiftRight
  | .loopStart => jumpIfZero
  | .loopEnd => jumpIfNonZero
  | .input => input
  | .output => output

theorem name?_eq_none_iff {op : Opcode} : op.name? = none ↔ op = unassigned op.code := by
  cases op <;> simp [name?, code]

theorem name?_isSome_iff {op : Opcode} : op.name?.isSome ↔ ∀ code, op ≠ unassigned code := by
  cases op <;> simp [name?]

end Opcode

/-- One operation with its operand: a repeat count, or the target of a jump. -/
structure Instruction where
  op : Opcode
  operand : Int
  deriving DecidableEq, Repr

namespace Instruction

/-- The operand of a forward jump whose closing bracket has not been met yet. -/
def unresolved : Int := 9223372036854775807

def ofSymbol (symbol : Symbol) (operand : Int) : Instruction :=
  ⟨Opcode.ofSymbol symbol, operand⟩

def call? (i : Instruction) : Option String :=
  i.op.name?.map fun name => name ++ "(" ++ Decimal.integer i.operand ++ ")"

def columns? (i : Instruction) : Option String :=
  i.op.name?.map fun name => Text.padRight 14 name ++ " " ++ Decimal.integer i.operand

end Instruction

abbrev Program := Array Instruction

end TapeVM
