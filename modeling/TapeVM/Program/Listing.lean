import TapeVM.Host
import TapeVM.Instruction
import TapeVM.Text.Style

/-! The listing of a program: one row for each instruction, its index in front. -/
namespace TapeVM.Program

inductive Unlisted where
  | unnamed (code : Int)
  | overlong (limit : Nat)
  deriving DecidableEq, Repr

def listingRow (host : Host) (width : Nat) (i : Instruction) (index : Nat) :
    Except Unlisted String :=
  match i.columns? with
  | some columns =>
    (host.write [i.operand] (
      Text.Style.faint.paint (Text.padLeft width (Decimal.natural index) ++ " :") ++ "  " ++
      columns ++ "\n")).mapError .overlong
  | none => .error (.unnamed i.op.code)

/-- The indices take as many places as the largest one has digits. If that one can be written, so
can they all. -/
def listing (host : Host) (program : Program) : Except Unlisted String :=
  let last := program.size - 1
  match host.write [last] (Decimal.digits last).length with
  | .error limit => .error (.overlong limit)
  | .ok width =>
    String.join <$> program.toList.zipIdx.mapM fun (i, index) => listingRow host width i index

end TapeVM.Program
