import TapeVM.Machine
import TapeVM.Tape.Window

/-! The trace of a machine: one line for each step, written before the step is made. -/
namespace TapeVM.Machine

/-- The instruction a program counter stands at, where one below zero counts from the end. -/
def shown? (m : Machine) : Option Instruction :=
  if 0 ≤ m.pc then m.program[m.pc.toNat]?
  else if 0 ≤ m.pc + m.program.size then m.program[(m.pc + m.program.size).toNat]?
  else none

def traceRadius : Int := 4

/-- The number of a step, the place and text of its instruction, and the tape around the cursor. The
columns are made from left to right, and the first that cannot be made is the fault. -/
def traceLine (m : Machine) (step : Int) : Except Fault String :=
  match m.shown? with
  | none => .error .noInstruction
  | some i =>
    match m.host.write [step, m.pc] i.call? with
    | .error limit => .error (.overlong limit)
    | .ok none => .error (.unnamed i.op.code)
    | .ok (some call) =>
      (m.host.write [i.operand, m.cursor] (
        Text.Style.faint.paint (Text.padLeft 5 (Decimal.integer step) ++ " :") ++ "  " ++
        Text.padLeft 5 (Decimal.integer m.pc) ++ "  " ++ Text.padRight 20 call ++ " " ++
        Text.Style.faint.paint ("@" ++ Decimal.natural m.cursor) ++ "  " ++
        Tape.window m.tape m.cursor traceRadius ++ "\n")).mapError .overlong

end TapeVM.Machine
