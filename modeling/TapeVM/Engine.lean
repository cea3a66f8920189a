import TapeVM.Failure
import TapeVM.Machine.Run
import TapeVM.Program.Listing

/-! The engine: from sources to programs, loaded machines and runs. -/
namespace TapeVM

def defaultTapeSize : Int := 30000

structure Engine where
  tapeSize : Int := defaultTapeSize
  host : Host := {}
  deriving DecidableEq, Repr

namespace Engine

def compile (source : Source) (file : Option String) : Except Failure Program :=
  (Program.ofSource source).mapError fun error => .assembling error file

def unlisted : Program.Unlisted → Failure
  | .unnamed code => .running (.unnamed code)
  | .overlong limit => .overlong limit

def list (host : Host) (program : Program) : Except Failure String :=
  (program.listing host).mapError unlisted

def disassemble (host : Host) (source : Source) (file : Option String) : Except Failure String :=
  match compile source file with
  | .error failure => .error failure
  | .ok program => list host program

/-- A machine for a source. A tape size that is given wins over the engine's own. -/
def load (engine : Engine) (source : Source) (file : Option String) (tapeSize : Option Int)
    (console : Console) : Except Failure Machine :=
  match compile source file with
  | .error failure => .error failure
  | .ok program =>
    (Machine.load engine.host program (tapeSize.getD engine.tapeSize) console).mapError .loading

/-- A source is loaded and run to its end, and the statistics, if any are kept, count the steps.
There is no answer if that takes more than `limit` steps. -/
def run (limit : Nat) (engine : Engine) (source : Source) (file : Option String)
    (tapeSize : Option Int) (console : Console) (verbosity : Int) (stats : Option Statistics) :
    Option (Except Failure (Run × Run.Ending) × Option Statistics) :=
  match engine.load source file tapeSize console with
  | .error failure => some (.error failure, stats)
  | .ok machine =>
    (machine.run limit verbosity stats).map fun (result, stats) => (.ok result, stats)

end Engine
end TapeVM
