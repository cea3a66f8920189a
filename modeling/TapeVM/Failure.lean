import TapeVM.Assembly
import TapeVM.Diagnostic
import TapeVM.Machine.Load

/-! Everything that can go wrong between a source and the end of its run. -/
namespace TapeVM

inductive Failure where
  | assembling (error : Assembly.Error) (file : Option String)
  | loading (error : Machine.LoadError)
  | running (fault : Machine.Fault)
  /-- A number that was to be written has more digits than the limit. -/
  | overlong (limit : Nat)
  deriving DecidableEq, Repr

namespace Failure

def message : Failure → String
  | assembling error _ => error.message
  | loading error => error.message
  | running fault => fault.message
  | overlong limit => Host.overlongMessage limit

def numbers : Failure → List Int
  | assembling error _ => error.numbers
  | loading error => error.numbers
  | running fault => fault.numbers
  | overlong _ => []

/-- What a failure comes out as: itself, unless its message cannot be written. -/
def raised (host : Host) (failure : Failure) : Failure :=
  match host.write failure.numbers failure with
  | .ok failure => failure
  | .error limit => .overlong limit

def bracket? : Failure → Option (Location × String)
  | assembling error _ => error.bracket?
  | loading _ | running _ | overlong _ => none

def mark (location : Location) (token : String) : Mark :=
  ⟨some location.line, some location.column, some token⟩

/-- What the user is told. There is no diagnostic for failures that no source can lead to. -/
def diagnostic? (failure : Failure) : Option Diagnostic :=
  match failure with
  | assembling (.unexpectedClosing location) file =>
    some (.parse failure.message file (mark location "]"))
  | assembling (.unclosed location remaining) file =>
    some (.incomplete failure.message file (mark location "[") (some remaining))
  | assembling (.unknownSymbol _) _ | assembling (.missingInstruction _) _ => none
  | loading (.tapeSize _) | loading (.operandOutOfRange ..) => some (.value failure.message none)
  | loading (.shortage _) => none
  | running (.tapeOverflow size excess) => some (.tape failure.message (some size) (some excess))
  | running (.input _) => some (.input failure.message none)
  | running (.unimplemented _) | running (.unnamed _) | running .noInstruction
  | running .offTape | running (.shortage _) | running (.overlong _) | overlong _ => none

theorem raised_of_writes {host : Host} {failure : Failure}
    (writes : ∀ n ∈ failure.numbers, host.Writes n) : failure.raised host = failure := by
  rw [raised, Host.write_of_writes writes]

theorem exists_raised_eq_overlong {host : Host} {failure : Failure}
    (refused : ¬ ∀ n ∈ failure.numbers, host.Writes n) :
    ∃ limit, host.digits = some limit ∧ failure.raised host = .overlong limit := by
  obtain ⟨limit, limited, error⟩ := Host.exists_write_eq_error refused failure
  exact ⟨limit, limited, by rw [raised, error]⟩

end Failure
end TapeVM
