import TapeVM.Failure
import TapeVM.Proofs.Step

/-! Requests: what a caller may ask of a machine. Single operations and runs come in any order, with
amounts of any size, and go on after faults; none of them leads off the tape. -/
namespace TapeVM.Machine

/-- A run is followed for at most `limit` steps, so that it can be looked at on its way. -/
inductive Request where
  | add (amount : Int)
  | sub (amount : Int)
  | shiftLeft (amount : Int)
  | shiftRight (amount : Int)
  | output (amount : Int)
  | input
  | run (verbosity : Int) (limit : Nat)
  deriving DecidableEq, Repr

namespace Request

/-- A run that has come to its end is closed. -/
def perform (m : Machine) : Request → Outcome
  | add amount => m.add amount
  | sub amount => m.sub amount
  | shiftLeft amount => m.shiftLeft amount
  | shiftRight amount => m.shiftRight amount
  | output amount => m.output amount
  | input => m.input
  | run verbosity limit =>
    match (m.start verbosity).follow limit with
    | (last, none) => (last.machine, none)
    | (last, some .finished) => (last.close.machine, none)
    | (last, some (.faulted fault)) => (last.close.machine, some fault)

def Forward : Request → Prop
  | shiftLeft amount | shiftRight amount => 0 ≤ amount
  | add .. | sub .. | output .. | input | run .. => True

def MayRaise (host : Host) (p : Program) : Request → Fault → Prop
  | shiftRight _, .tapeOverflow .. => True
  | input, .input _ => True
  | output amount, .shortage cause => host.shortage? amount = some cause
  | run verbosity _, fault => p.MayRaise host (0 < verbosity) fault
  | _, _ => False

end Request

/-- The requests are served one after the other, whatever faults they end in. -/
def serve (m : Machine) (requests : List Request) : Machine :=
  requests.foldl (fun m request => (request.perform m).1) m

variable {m : Machine} {host : Host} {p : Program} {cells : Nat}

theorem Sound.perform (sound : m.Sound host p cells) (shifts : p.Forward) {request : Request}
    (forward : request.Forward) :
    Safe host p cells (request.MayRaise host p) (request.perform m) := by
  cases request with
  | add amount => exact sound.add amount
  | sub amount => exact sound.sub amount
  | shiftLeft amount => exact sound.shiftLeft forward
  | shiftRight amount => exact sound.shiftRight amount fun _ _ => trivial
  | output amount => exact sound.output amount fun _ short => short
  | input => exact sound.input fun _ => trivial
  | run verbosity limit =>
    have start : (m.start verbosity).machine.Sound host p cells := sound
    have followed := start.follow shifts limit
    rw [Request.perform]
    rcases ended : (m.start verbosity).follow limit with ⟨last, _ | _ | fault⟩ <;>
      rw [ended] at followed
    · exact followed.1.safe
    · exact followed.1.close.safe
    · exact followed.1.close.safe_fault (followed.2 fault rfl)

theorem Sound.serve (sound : m.Sound host p cells) (shifts : p.Forward) {requests : List Request}
    (forward : ∀ request ∈ requests, request.Forward) : (m.serve requests).Sound host p cells := by
  induction requests generalizing m with
  | nil => exact sound
  | cons request requests ih =>
    have served := sound.perform shifts (forward request List.mem_cons_self)
    exact ih served.sound fun later member => forward later (List.mem_cons_of_mem _ member)

/-- After any requests, and on the way through any run, the tape is as long as it was made, the
cursor is on it, and every cell is a byte. So no request finds its cell missing: a shift to the
right may overflow, a read may fail, a write may be too long for the host, and a run may do all of
these or meet an instruction that is not known. A fault comes out as such unless its message holds a
number that the host cannot write. -/
theorem requests_stay_on_tape {host : Host} {program : Program} {tapeSize : Int}
    {console : Console} {machine : Machine} (shifts : program.Forward)
    (loaded : load host program tapeSize console = .ok machine) {requests : List Request}
    (forward : ∀ request ∈ requests, request.Forward) :
    ((machine.serve requests).tape.size : Int) = tapeSize ∧
      (machine.serve requests).cursor < (machine.serve requests).tape.size ∧
      (∀ cell ∈ (machine.serve requests).tape, cell.toNat ≤ 255) ∧
      ∀ request : Request, request.Forward → ∀ fault,
        (request.perform (machine.serve requests)).2 = some fault →
        request.MayRaise host program fault ∧
          ((∀ n ∈ fault.numbers, host.Writes n) →
            (Failure.running fault).raised host = .running fault) ∧
          ((¬ ∀ n ∈ fault.numbers, host.Writes n) → ∃ limit, host.digits = some limit ∧
            (Failure.running fault).raised host = .overlong limit) := by
  have positive := (load_eq_ok_iff.1 loaded).1
  have sound := (sound_of_load loaded).serve shifts forward
  refine ⟨?_, sound.inside, fun cell _ => Nat.le_of_lt_succ cell.toNat_lt, ?_⟩
  · rw [sound.size]
    omega
  · intro request here fault raised
    exact ⟨(sound.perform shifts here).fault fault raised,
      fun writes => Failure.raised_of_writes writes,
      fun refused => Failure.exists_raised_eq_overlong refused⟩

/-- A request for more output than there can be fails for a reason of its own. -/
theorem request_for_huge_output_fails :
    let machine : Machine := { program := #[], tape := #[0] }
    let amount : Int := -1000000000000000000000000000000
    load {} #[] 1 {} = .ok machine ∧
      (Request.output amount).perform machine = (machine, some (.shortage .index)) ∧
      (Failure.running (.shortage .index)).raised {} = .running (.shortage .index) ∧
      (Failure.running (.shortage .index)).diagnostic? = none := by
  exact ⟨rfl, rfl, Failure.raised_of_writes (by simp [Failure.numbers, Fault.numbers]), rfl⟩

/-- A run that is cut off, one that leaves the tape, a read without input and a huge amount. -/
theorem requests_stay_on_tape_mixed :
    let program : Program := #[⟨.add, -3⟩, ⟨.shiftRight, 1⟩, ⟨.jumpIfZero, -1⟩]
    let machine : Machine := { program, tape := #[0, 0] }
    let requests : List Request :=
      [.run 0 1, .run 0 9, .input, .sub 1000000000000000000000000000001, .shiftLeft 5]
    program.Forward ∧ load {} program 2 {} = .ok machine ∧
      (∀ request ∈ requests, request.Forward) ∧
      (machine.serve requests).tape = #[253, 252] ∧
      (machine.serve requests).cursor < (machine.serve requests).tape.size ∧
      ((Request.shiftRight 7).perform (machine.serve requests)).2 = some (.tapeOverflow 2 5) ∧
      ∀ fault, ((Request.run 0 9).perform (machine.serve requests)).2 = some fault →
        program.MayRaise {} false fault := by
  intro program machine requests
  have shifts : program.Forward := by
    simp [program, Program.Forward, Instruction.Forward]
  have loaded : load {} program 2 {} = .ok machine := by rfl
  have forward : ∀ request ∈ requests, request.Forward := by
    simp [requests, Request.Forward]
  obtain ⟨-, cursor, -, faults⟩ := requests_stay_on_tape shifts loaded forward
  exact ⟨shifts, loaded, forward, by decide +kernel, cursor, by decide +kernel,
    fun fault raised => (faults (.run 0 9) trivial fault raised).1⟩

end TapeVM.Machine
