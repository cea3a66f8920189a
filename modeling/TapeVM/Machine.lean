import TapeVM.Console
import TapeVM.Host
import TapeVM.Instruction
import TapeVM.Tape

/-! The virtual machine: its state and what single instructions do to it. A machine that a program
was loaded into has its cursor on the tape, and no instruction with a count that is not negative
moves it off. Counts have any size, but nothing larger than the host can hold is written. -/
namespace TapeVM

structure Machine where
  program : Program
  /-- The index of the next instruction. Outside the program it ends a run. -/
  pc : Int := 0
  tape : Tape
  cursor : Nat := 0
  console : Console := {}
  host : Host := {}

namespace Machine

inductive InputFault where
  | endOfInput
  | notBinary
  | failed (error : SystemError)
  deriving DecidableEq, Repr

inductive Fault where
  /-- The cursor would have moved to `excess` cells past the end of a tape of `size` cells. -/
  | tapeOverflow (size excess : Nat)
  | input (cause : InputFault)
  | unimplemented (code : Int)
  | unnamed (code : Int)
  | noInstruction
  | offTape
  /-- There can be no text as long as the one that was to be written. -/
  | shortage (cause : Host.Shortage)
  /-- A number that was to be shown has more digits than the limit. -/
  | overlong (limit : Nat)
  deriving DecidableEq, Repr

namespace Fault

def message : Fault → String
  | tapeOverflow size excess =>
    "memory overflowed: " ++ Decimal.natural size ++ " cells => " ++ Decimal.natural excess ++
      " cells"
  | input .endOfInput => "unexpected end of input"
  | input .notBinary => "input stream must be binary, read str instead of bytes"
  | input (.failed error) => "failed to read input: " ++ error.text
  | unimplemented code => "unimplemented instruction: " ++ Decimal.integer code
  | unnamed code => Decimal.integer code
  | noInstruction => "tuple index out of range"
  | offTape => "bytearray index out of range"
  | shortage cause => cause.message
  | overlong limit => Host.overlongMessage limit

def numbers : Fault → List Int
  | tapeOverflow size excess => [size, excess]
  | input (.failed error) => error.numbers
  | unimplemented code => [code]
  | input .endOfInput | input .notBinary | unnamed _ | noInstruction | offTape | shortage _
  | overlong _ => []

end Fault

/-- A machine after an instruction, and the fault the instruction ended in, if any. -/
abbrev Outcome := Machine × Option Fault

def cell? (m : Machine) : Option UInt8 := m.tape[m.cursor]?

def onCell (m : Machine) (change : UInt8 → UInt8) : Outcome :=
  if h : m.cursor < m.tape.size then
    ({ m with tape := m.tape.set m.cursor (change m.tape[m.cursor]) }, none)
  else (m, some .offTape)

/-- Cells count modulo 256, whatever the sign and size of the amount. -/
def add (m : Machine) (amount : Int) : Outcome :=
  m.onCell (· + UInt8.ofInt amount)

def sub (m : Machine) (amount : Int) : Outcome :=
  m.onCell (· - UInt8.ofInt amount)

/-- The first cell stops the cursor. -/
def shiftLeft (m : Machine) (amount : Int) : Outcome :=
  ({ m with cursor := (m.cursor - amount).toNat }, none)

/-- The cursor moves by the whole amount or, if it would leave the tape, not at all. -/
def shiftRight (m : Machine) (amount : Int) : Outcome :=
  let cursor := (m.cursor + amount).toNat
  if cursor < m.tape.size then ({ m with cursor }, none)
  else (m, some (.tapeOverflow m.tape.size (cursor - m.tape.size)))

/-- One write of the current cell, repeated; of nothing if the amount is not positive. Nothing is
written if there can be no text that long. -/
def output (m : Machine) (amount : Int) : Outcome :=
  match m.cell?, m.host.shortage? amount with
  | some value, none =>
    ({ m with console := m.console.write (List.replicate amount.toNat value) }, none)
  | some _, some cause => (m, some (.shortage cause))
  | none, _ => (m, some .offTape)

/-- One byte is read, after all earlier output has been flushed. -/
def input (m : Machine) : Outcome :=
  let (result, console) := m.console.flush.read
  let m := { m with console }
  match result with
  | .bytes (byte :: _) => m.onCell fun _ => byte
  | .bytes [] | .nothing | .text "" => (m, some (.input .endOfInput))
  | .text _ => (m, some (.input .notBinary))
  | .failed error => (m, some (.input (.failed error)))

def jumpIf (m : Machine) (condition : UInt8 → Bool) (target : Int) : Outcome :=
  match m.cell? with
  | some value => (if condition value then { m with pc := target } else m, none)
  | none => (m, some .offTape)

/-- The effect of an instruction, before the program counter moves on. -/
def execute (m : Machine) (i : Instruction) : Outcome :=
  match i.op with
  | .add => m.add i.operand
  | .sub => m.sub i.operand
  | .shiftLeft => m.shiftLeft i.operand
  | .shiftRight => m.shiftRight i.operand
  | .jumpIfZero => m.jumpIf (· == 0) i.operand
  | .jumpIfNonZero => m.jumpIf (· != 0) i.operand
  | .input => m.input
  | .output => m.output i.operand
  | .unassigned code => (m, some (.unimplemented code))

/-- A jump that is taken moves on too, so control goes on behind its target. A fault leaves the
program counter at the instruction that caused it. -/
def dispatch (m : Machine) (i : Instruction) : Outcome :=
  match m.execute i with
  | (m, none) => ({ m with pc := m.pc + 1 }, none)
  | (m, some fault) => (m, some fault)

/-- The instruction that is next, unless the run is over. -/
def next? (m : Machine) : Option Instruction :=
  if 0 ≤ m.pc then m.program[m.pc.toNat]? else none

def awaitsInput (m : Machine) : Bool :=
  match m.next? with
  | some i => i.op = .input && m.console.pending.isEmpty
  | none => false

end Machine
end TapeVM
