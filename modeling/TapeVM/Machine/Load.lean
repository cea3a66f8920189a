import TapeVM.Machine

/-! Loading a program into a machine. A program is checked once, before it runs. -/
namespace TapeVM.Machine

inductive LoadError where
  | tapeSize (size : Int)
  /-- There can be no tape of the size that was asked for. -/
  | shortage (cause : Host.Shortage)
  | operandOutOfRange (instruction : Instruction) (index : Nat)
  deriving DecidableEq, Repr

def operandLimit : Nat := 255

def LoadError.message : LoadError → String
  | tapeSize size => "tape size must be at least 1 cell, got " ++ Decimal.integer size
  | shortage cause => cause.message
  | operandOutOfRange instruction index =>
    "operand out of range: Add and Sub instructions must have data less than " ++
      Decimal.natural operandLimit ++ ", got " ++ instruction.call?.getD "" ++ " at index " ++
      Decimal.natural index

def LoadError.numbers : LoadError → List Int
  | tapeSize size => [size]
  | shortage _ => []
  | operandOutOfRange instruction index => [instruction.operand, index]

def exceedsLimit (i : Instruction) : Bool :=
  (i.op = .add || i.op = .sub) && (operandLimit : Int) ≤ i.operand

def violation? (program : Program) : Option (Instruction × Nat) :=
  program.toList.zipIdx.find? fun (i, _) => exceedsLimit i

def load (host : Host) (program : Program) (tapeSize : Int) (console : Console) :
    Except LoadError Machine :=
  if tapeSize < 1 then .error (.tapeSize tapeSize)
  else
    match host.shortage? tapeSize, violation? program with
    | some cause, _ => .error (.shortage cause)
    | none, some (i, index) => .error (.operandOutOfRange i index)
    | none, none => .ok { program, tape := Tape.blank tapeSize.toNat, console, host }

theorem load_eq_ok_iff {host : Host} {program : Program} {tapeSize : Int} {console : Console}
    {m : Machine} :
    load host program tapeSize console = .ok m ↔
      1 ≤ tapeSize ∧ host.shortage? tapeSize = none ∧ violation? program = none ∧
        m = { program, tape := Tape.blank tapeSize.toNat, console, host } := by
  rw [load]
  by_cases small : tapeSize < 1
  · simp [small, Int.not_le.2 small]
  · have large : 1 ≤ tapeSize := by omega
    cases room : host.shortage? tapeSize <;> cases checked : violation? program <;>
      simp [small, large, eq_comm]

end TapeVM.Machine
