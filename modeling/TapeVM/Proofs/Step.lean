import TapeVM.Machine.Load
import TapeVM.Machine.Run
import TapeVM.Proofs.Numerals

/-! Steps: what an instruction can do to a machine whose cursor is on the tape. Nothing changes the
program or the length of the tape, counts that are not negative keep the cursor on it, and each
operation has few faults it can end in. What one step keeps is kept by a whole run. -/
namespace TapeVM

/-- A count that moves the cursor is not negative. -/
def Instruction.Forward (i : Instruction) : Prop :=
  i.op = .shiftLeft ∨ i.op = .shiftRight → 0 ≤ i.operand

def Program.Forward (p : Program) : Prop := ∀ i ∈ p, i.Forward

/-- The faults of an instruction that is carried out while the cursor is on the tape. -/
def Instruction.MayRaise (host : Host) (i : Instruction) : Machine.Fault → Prop
  | .tapeOverflow .. => i.op = .shiftRight
  | .input _ => i.op = .input
  | .unimplemented code => i.op = .unassigned code
  | .shortage cause => i.op = .output ∧ host.shortage? i.operand = some cause
  | .unnamed _ | .noInstruction | .offTape | .overlong _ => False

/-- The faults of a run. A traced one shows an instruction first, and fails at one that has no name
or a number that cannot be written. -/
def Program.MayRaise (host : Host) (p : Program) (traced : Bool) : Machine.Fault → Prop
  | .tapeOverflow .. => ∃ i ∈ p, i.op = .shiftRight
  | .input _ => ∃ i ∈ p, i.op = .input
  | .unimplemented code => traced = false ∧ ∃ i ∈ p, i.op = .unassigned code
  | .shortage cause => ∃ i ∈ p, i.op = .output ∧ host.shortage? i.operand = some cause
  | .unnamed code => traced = true ∧ ∃ i ∈ p, i.op = .unassigned code
  | .overlong limit => traced = true ∧ host.digits = some limit
  | .noInstruction | .offTape => False

/-- The byte that a read gives; what stands behind it in the answer is lost. -/
def ReadResult.byte? : ReadResult → Option UInt8
  | .bytes (byte :: _) => some byte
  | .bytes [] | .text _ | .nothing | .failed _ => none

/-- What is wrong with a read that gives no byte. -/
def ReadResult.failure : ReadResult → Machine.InputFault
  | .failed error => .failed error
  | .text content => if content = "" then .endOfInput else .notBinary
  | .bytes _ | .nothing => .endOfInput

theorem Instruction.call?_eq_none_iff {i : Instruction} :
    i.call? = none ↔ i.op = .unassigned i.op.code := by
  rw [call?, Option.map_eq_none_iff, Opcode.name?_eq_none_iff]

namespace Machine

variable {m : Machine} {host : Host} {p : Program} {cells : Nat} {i : Instruction}

theorem cell?_of_lt (inside : m.cursor < m.tape.size) : m.cell? = some m.tape[m.cursor] := by
  simp [cell?, inside]

theorem onCell_of_lt (inside : m.cursor < m.tape.size) (change : UInt8 → UInt8) :
    m.onCell change =
      ({ m with tape := m.tape.set m.cursor (change m.tape[m.cursor]) }, none) :=
  dif_pos inside

theorem jumpIf_of_lt (inside : m.cursor < m.tape.size) (condition : UInt8 → Bool) (target : Int) :
    m.jumpIf condition target =
      (if condition m.tape[m.cursor] then { m with pc := target } else m, none) := by
  rw [jumpIf, cell?_of_lt inside]

theorem output_of_lt (inside : m.cursor < m.tape.size) {amount : Int}
    (room : m.host.shortage? amount = none) :
    m.output amount =
      ({ m with console := m.console.write (List.replicate amount.toNat m.tape[m.cursor]) },
        none) := by
  rw [output, cell?_of_lt inside, room]

theorem output_of_shortage (inside : m.cursor < m.tape.size) {amount : Int}
    {cause : Host.Shortage} (short : m.host.shortage? amount = some cause) :
    m.output amount = (m, some (.shortage cause)) := by
  rw [output, cell?_of_lt inside, short]

theorem input_of_byte {byte : UInt8} (given : m.console.flush.read.1.byte? = some byte) :
    m.input = { m with console := m.console.flush.read.2 }.onCell fun _ => byte := by
  rw [input]
  generalize m.console.flush.read = answer at given ⊢
  obtain ⟨result, console⟩ := answer
  cases result with
  | bytes content =>
    cases content with
    | nil => cases given
    | cons first more =>
      obtain rfl : first = byte := Option.some.inj given
      rfl
  | text | nothing | failed => cases given

theorem input_of_none (missing : m.console.flush.read.1.byte? = none) :
    m.input = ({ m with console := m.console.flush.read.2 },
      some (.input m.console.flush.read.1.failure)) := by
  rw [input]
  generalize m.console.flush.read = answer at missing ⊢
  obtain ⟨result, console⟩ := answer
  cases result with
  | bytes content =>
    cases content with
    | nil => rfl
    | cons first more => cases missing
  | text content => by_cases empty : content = "" <;> simp [ReadResult.failure, empty]
  | nothing | failed => rfl

/-- A machine on a host, for a program and a size of tape, with its cursor on the tape. -/
structure Sound (host : Host) (p : Program) (cells : Nat) (m : Machine) : Prop where
  host : m.host = host
  program : m.program = p
  size : m.tape.size = cells
  cursor : m.cursor < cells

/-- An operation leaves a sound machine, and only certain faults can come of it. -/
structure Safe (host : Host) (p : Program) (cells : Nat) (faults : Fault → Prop)
    (outcome : Outcome) : Prop where
  sound : outcome.1.Sound host p cells
  fault : ∀ fault, outcome.2 = some fault → faults fault

theorem Sound.inside (sound : m.Sound host p cells) : m.cursor < m.tape.size :=
  sound.size ▸ sound.cursor

theorem Sound.setPc (sound : m.Sound host p cells) (pc : Int) :
    ({ m with pc } : Machine).Sound host p cells :=
  ⟨sound.host, sound.program, sound.size, sound.cursor⟩

theorem Sound.setConsole (sound : m.Sound host p cells) (console : Console) :
    ({ m with console } : Machine).Sound host p cells :=
  ⟨sound.host, sound.program, sound.size, sound.cursor⟩

theorem Sound.safe {faults : Fault → Prop} (sound : m.Sound host p cells) :
    Safe host p cells faults (m, none) :=
  ⟨sound, fun _ raised => by cases raised⟩

theorem Sound.safe_fault {faults : Fault → Prop} {fault : Fault} (sound : m.Sound host p cells)
    (allowed : faults fault) : Safe host p cells faults (m, some fault) := by
  refine ⟨sound, fun _ raised => ?_⟩
  obtain rfl := Option.some.inj raised
  exact allowed

theorem Sound.onCell {faults : Fault → Prop} (sound : m.Sound host p cells) (change : UInt8 → UInt8) :
    Safe host p cells faults (m.onCell change) := by
  rw [onCell_of_lt sound.inside]
  exact Sound.safe ⟨sound.host, sound.program, by simp [sound.size], sound.cursor⟩

theorem Sound.add {faults : Fault → Prop} (sound : m.Sound host p cells) (amount : Int) :
    Safe host p cells faults (m.add amount) :=
  sound.onCell (· + UInt8.ofInt amount)

theorem Sound.sub {faults : Fault → Prop} (sound : m.Sound host p cells) (amount : Int) :
    Safe host p cells faults (m.sub amount) :=
  sound.onCell (· - UInt8.ofInt amount)

theorem Sound.jumpIf {faults : Fault → Prop} (sound : m.Sound host p cells) (condition : UInt8 → Bool)
    (target : Int) : Safe host p cells faults (m.jumpIf condition target) := by
  rw [jumpIf_of_lt sound.inside]
  split
  · exact (sound.setPc target).safe
  · exact sound.safe

theorem Sound.output {faults : Fault → Prop} (sound : m.Sound host p cells) (amount : Int)
    (allowed : ∀ cause, host.shortage? amount = some cause → faults (.shortage cause)) :
    Safe host p cells faults (m.output amount) := by
  cases room : m.host.shortage? amount with
  | none =>
    rw [output_of_lt sound.inside room]
    exact (sound.setConsole _).safe
  | some cause =>
    rw [output_of_shortage sound.inside room]
    exact sound.safe_fault (allowed cause (sound.host ▸ room))

theorem Sound.shiftLeft {faults : Fault → Prop} (sound : m.Sound host p cells) {amount : Int}
    (forward : 0 ≤ amount) : Safe host p cells faults (m.shiftLeft amount) := by
  have bound := sound.cursor
  refine Sound.safe ⟨sound.host, sound.program, sound.size, ?_⟩
  change ((m.cursor : Int) - amount).toNat < cells
  omega

theorem Sound.shiftRight {faults : Fault → Prop} (sound : m.Sound host p cells) (amount : Int)
    (allowed : ∀ size excess, faults (.tapeOverflow size excess)) :
    Safe host p cells faults (m.shiftRight amount) := by
  rw [Machine.shiftRight]
  split
  · rename_i inside
    exact Sound.safe ⟨sound.host, sound.program, sound.size, sound.size ▸ inside⟩
  · exact sound.safe_fault (allowed _ _)

theorem Sound.input {faults : Fault → Prop} (sound : m.Sound host p cells)
    (allowed : ∀ cause, faults (.input cause)) : Safe host p cells faults m.input := by
  have read := sound.setConsole m.console.flush.read.2
  cases given : m.console.flush.read.1.byte? with
  | some byte =>
    rw [input_of_byte given]
    exact read.onCell _
  | none =>
    rw [input_of_none given]
    exact read.safe_fault (allowed _)

theorem Sound.execute (sound : m.Sound host p cells) (forward : i.Forward) :
    Safe host p cells (i.MayRaise host) (m.execute i) := by
  obtain ⟨op, operand⟩ := i
  cases op with
  | add => exact sound.add operand
  | sub => exact sound.sub operand
  | shiftLeft => exact sound.shiftLeft (forward (.inl rfl))
  | shiftRight => exact sound.shiftRight operand fun _ _ => rfl
  | jumpIfZero => exact sound.jumpIf _ operand
  | jumpIfNonZero => exact sound.jumpIf _ operand
  | input => exact sound.input fun _ => rfl
  | output => exact sound.output operand fun _ short => ⟨rfl, short⟩
  | unassigned code => exact sound.safe_fault rfl

theorem dispatch_eq (m : Machine) (i : Instruction) :
    m.dispatch i = if (m.execute i).2.isSome then m.execute i
      else ({ (m.execute i).1 with pc := (m.execute i).1.pc + 1 }, none) := by
  rw [dispatch]
  rcases m.execute i with ⟨after, _ | fault⟩ <;> rfl

theorem dispatch_of_fault {fault : Fault} (raised : (m.dispatch i).2 = some fault) :
    m.dispatch i = m.execute i := by
  rw [dispatch_eq] at raised ⊢
  split
  · rfl
  · rename_i none
    simp [none] at raised

theorem Sound.dispatch (sound : m.Sound host p cells) (forward : i.Forward) :
    Safe host p cells (i.MayRaise host) (m.dispatch i) := by
  have safe := sound.execute forward
  rw [dispatch_eq]
  split
  · exact safe
  · exact (safe.sound.setPc _).safe

theorem mem_of_next? (found : m.next? = some i) : i ∈ m.program := by
  rw [next?] at found
  split at found
  · exact Array.mem_of_getElem? found
  · cases found

/-- An instruction that stands in the next line of a trace. -/
def Reveals (m : Machine) (step : Int) (i : Instruction) : Prop :=
  i.op.name?.isSome ∧ ∀ n ∈ [step, m.pc, i.operand, (m.cursor : Int)], m.host.Writes n

/-- An instruction cannot be shown, and why: it has no name, or a number cannot be written. The
columns in front of the name come first. -/
def Hides (m : Machine) (step : Int) (i : Instruction) : Fault → Prop
  | .unnamed code => i.op = .unassigned code ∧ ∀ n ∈ [step, m.pc], m.host.Writes n
  | .overlong limit => m.host.digits = some limit ∧
    ((¬ ∀ n ∈ [step, m.pc], m.host.Writes n) ∨
      i.op.name?.isSome ∧ ¬ ∀ n ∈ [i.operand, (m.cursor : Int)], m.host.Writes n)
  | .tapeOverflow .. | .input _ | .unimplemented _ | .noInstruction | .offTape | .shortage _ => False

theorem Reveals.of_le {other : Machine} {step late : Nat} (reveals : other.Reveals late i)
    (le : step ≤ late) (host : m.host = other.host) (pc : m.pc = other.pc)
    (cursor : m.cursor = other.cursor) : m.Reveals step i := by
  obtain ⟨named, writes⟩ := reveals
  rw [← host, ← pc, ← cursor, List.forall_mem_cons] at writes
  exact ⟨named, List.forall_mem_cons.2 ⟨writes.1.of_natCast_le le, writes.2⟩⟩

theorem traceLine_of_next? (found : m.next? = some i) (step : Int) :
    (∃ line, m.Reveals step i ∧ m.traceLine step = .ok line) ∨
      ∃ fault, m.Hides step i fault ∧ m.traceLine step = .error fault := by
  have shown : m.shown? = some i := by
    rw [next?] at found
    split at found
    · rwa [shown?, if_pos ‹_›]
    · cases found
  rw [traceLine, shown]
  dsimp only
  by_cases front : ∀ n ∈ [step, m.pc], m.host.Writes n
  · rw [Host.write_of_writes front]
    cases is : i.op.name? with
    | none =>
      exact .inr ⟨.unnamed i.op.code, ⟨Opcode.name?_eq_none_iff.1 is, front⟩,
        by simp [Instruction.call?, is]⟩
    | some name =>
      by_cases behind : ∀ n ∈ [i.operand, (m.cursor : Int)], m.host.Writes n
      · refine .inl ⟨_, ⟨by simp [is], ?_⟩, by
          simp only [Instruction.call?, is, Option.map_some, Host.write_of_writes behind]
          rfl⟩
        exact List.forall_mem_append.2 ⟨front, behind⟩
      · obtain ⟨limit, limited, -⟩ := Host.exists_write_eq_error behind ()
        refine .inr ⟨.overlong limit, ⟨limited, .inr ⟨by simp [is], behind⟩⟩, ?_⟩
        simp only [Instruction.call?, is, Option.map_some,
          Host.write_eq_error_iff.2 ⟨limited, behind⟩]
        rfl
  · obtain ⟨limit, limited, refused⟩ := Host.exists_write_eq_error front i.call?
    rw [refused]
    exact .inr ⟨.overlong limit, ⟨limited, .inl front⟩, rfl⟩

theorem Reveals.not_hides {step : Int} {fault : Fault} (reveals : m.Reveals step i) :
    ¬ m.Hides step i fault := by
  obtain ⟨named, writes⟩ := reveals
  have front : ∀ n ∈ [step, m.pc], m.host.Writes n := fun n member =>
    writes n (List.mem_append_left [i.operand, (m.cursor : Int)] member)
  have behind : ∀ n ∈ [i.operand, (m.cursor : Int)], m.host.Writes n := fun n member =>
    writes n (List.mem_append_right [step, m.pc] member)
  cases fault with
  | unnamed code => exact fun hides => Opcode.name?_isSome_iff.1 named code hides.1
  | overlong limit =>
    rintro ⟨-, refused | ⟨-, refused⟩⟩
    · exact refused front
    · exact refused behind
  | _ => exact False.elim

theorem Hides.unique {step : Int} {fault other : Fault} (hides : m.Hides step i fault)
    (hides' : m.Hides step i other) : fault = other := by
  have apart {code : Int} {limit : Nat} (unnamed : m.Hides step i (.unnamed code)) :
      ¬ m.Hides step i (.overlong limit) := by
    rintro ⟨-, refused | ⟨named, -⟩⟩
    · exact refused unnamed.2
    · exact Opcode.name?_isSome_iff.1 named code unnamed.1
  cases fault with
  | unnamed code =>
    cases other with
    | unnamed other => exact congrArg _ (Opcode.unassigned.inj (hides.1.symm.trans hides'.1))
    | overlong => exact (apart hides hides').elim
    | _ => exact hides'.elim
  | overlong limit =>
    cases other with
    | unnamed => exact (apart hides' hides).elim
    | overlong other => exact congrArg _ (Option.some.inj (hides.1.symm.trans hides'.1))
    | _ => exact hides'.elim
  | _ => exact hides.elim

theorem Hides.traceLine {step : Int} {fault : Fault} (found : m.next? = some i)
    (hides : m.Hides step i fault) : m.traceLine step = .error fault := by
  rcases traceLine_of_next? found step with ⟨line, reveals, -⟩ | ⟨reason, hidden, line⟩
  · exact (reveals.not_hides hides).elim
  · rw [line, hidden.unique hides]

theorem hides_congr {other : Machine} {step : Int} {fault : Fault} (host : m.host = other.host)
    (pc : m.pc = other.pc) (cursor : m.cursor = other.cursor) :
    m.Hides step i fault ↔ other.Hides step i fault := by
  cases fault <;> simp only [Hides, host, pc, cursor]

theorem sound_of_load {tapeSize : Int} {console : Console}
    (loaded : load host p tapeSize console = .ok m) : m.Sound host p tapeSize.toNat := by
  obtain ⟨positive, -, -, rfl⟩ := load_eq_ok_iff.1 loaded
  refine ⟨rfl, rfl, by simp [Tape.blank], ?_⟩
  change 0 < tapeSize.toNat
  omega

end Machine

namespace Run

variable {run : Run} {i : Instruction} {limit : Nat}

theorem next_of_outside (outside : run.machine.next? = none) : run.next = (run, some .finished) := by
  simp [next, outside]

theorem next_of_hides {fault : Machine.Fault} (found : run.machine.next? = some i)
    (traced : run.traced = true) (hides : run.machine.Hides run.steps i fault) :
    run.next = (run, some (.faulted fault)) := by
  simp [next, found, traced, hides.traceLine found]

/-- An instruction that can be shown is carried out in every run. -/
theorem next_of_reveals (found : run.machine.next? = some i)
    (reveals : run.traced = true → run.machine.Reveals run.steps i) :
    ∃ trace, run.next = { run with trace }.dispatch i := by
  by_cases traced : run.traced = true
  · rcases Machine.traceLine_of_next? found run.steps with ⟨line, -, shown⟩ | ⟨fault, hides, -⟩
    · exact ⟨run.trace.push line, by simp [next, found, traced, shown]⟩
    · exact ((reveals traced).not_hides hides).elim
  · exact ⟨run.trace, by simp only [next, found, if_neg traced]⟩

/-- A run ends behind its program, it cannot show the next instruction, or it carries it out. -/
theorem next_cases (run : Run) :
    run.machine.next? = none ∨
    (∃ i fault, run.machine.next? = some i ∧ run.traced = true ∧
      run.machine.Hides run.steps i fault) ∨
    ∃ i, run.machine.next? = some i ∧ (run.traced = true → run.machine.Reveals run.steps i) := by
  cases found : run.machine.next? with
  | none => exact .inl rfl
  | some i =>
    by_cases traced : run.traced = true
    · rcases Machine.traceLine_of_next? found run.steps with ⟨-, reveals, -⟩ | ⟨fault, hides, -⟩
      · exact .inr (.inr ⟨i, rfl, fun _ => reveals⟩)
      · exact .inr (.inl ⟨i, fault, rfl, traced, hides⟩)
    · exact .inr (.inr ⟨i, rfl, fun is => absurd is traced⟩)

theorem dispatch_eq (run : Run) (i : Instruction) :
    run.dispatch i = ({ run with
      machine := (run.machine.dispatch i).1, steps := run.steps + 1 },
      (run.machine.dispatch i).2.map .faulted) := rfl

/-- A relation that the next instruction keeps is kept by the next step of both runs, if the first
can show what the second can, and cannot show what the second fails at. -/
theorem next_alike {R : Machine → Machine → Prop} {first second : Run}
    (related : R first.machine second.machine) (traced : first.traced = second.traced)
    (same : first.machine.next? = second.machine.next?)
    (reveals : ∀ i, second.machine.Reveals second.steps i → first.machine.Reveals first.steps i)
    (hides : ∀ i fault, second.machine.next? = some i → second.traced = true →
      second.machine.Hides second.steps i fault → first.machine.Hides first.steps i fault)
    (dispatched : ∀ i, second.machine.next? = some i →
      second.next.2 = (second.machine.dispatch i).2.map .faulted →
      R (first.machine.dispatch i).1 (second.machine.dispatch i).1 ∧
        (first.machine.dispatch i).2 = (second.machine.dispatch i).2) :
    R first.next.1.machine second.next.1.machine ∧
      first.next.1.traced = second.next.1.traced ∧ first.next.2 = second.next.2 ∧
      first.next.1.steps + second.steps = first.steps + second.next.1.steps := by
  rcases second.next_cases with outside | ⟨i, fault, found, shown, hidden⟩ | ⟨i, found, shown⟩
  · rw [next_of_outside outside, next_of_outside (same.trans outside)]
    exact ⟨related, traced, rfl, rfl⟩
  · have next := next_of_hides found shown hidden
    rw [next, next_of_hides (same.trans found) (traced.trans shown)
      (hides i fault found shown hidden)]
    exact ⟨related, traced, rfl, rfl⟩
  · obtain ⟨trace, next⟩ := next_of_reveals found shown
    obtain ⟨trace', next'⟩ := next_of_reveals (same.trans found)
      fun is => reveals i (shown (traced ▸ is))
    obtain ⟨after, fault⟩ := dispatched i found (by rw [next, dispatch_eq])
    rw [next, next', dispatch_eq, dispatch_eq]
    refine ⟨after, traced, ?_, ?_⟩
    · rw [fault]
    · dsimp only
      omega

theorem steps_of_next {next : Run} (stepped : run.next = (next, none)) :
    next.steps = run.steps + 1 := by
  rcases run.next_cases with outside | ⟨i, fault, found, traced, hides⟩ | ⟨i, found, reveals⟩
  · simp [next_of_outside outside] at stepped
  · simp [next_of_hides found traced hides] at stepped
  · obtain ⟨trace, dispatched⟩ := next_of_reveals found reveals
    rw [dispatched, dispatch_eq] at stepped
    rw [← (Prod.mk.inj stepped).1]

theorem exists_dispatch {last : Run} {fault : Machine.Fault}
    (raised : run.next = (last, some (.faulted fault)))
    (shown : run.traced = true → ∀ i, ¬ run.machine.Hides run.steps i fault) :
    ∃ i, run.machine.next? = some i ∧ run.machine.dispatch i = (last.machine, some fault) ∧
      last.steps = run.steps + 1 := by
  rcases run.next_cases with outside | ⟨i, hidden, found, traced, hides⟩ | ⟨i, found, reveals⟩
  · simp [next_of_outside outside] at raised
  · rw [next_of_hides found traced hides] at raised
    cases raised
    exact (shown traced i hides).elim
  · obtain ⟨trace, next⟩ := next_of_reveals found reveals
    rw [next, dispatch_eq] at raised
    obtain ⟨rfl, ended⟩ := Prod.mk.inj raised
    exact ⟨i, found, Prod.ext rfl (by simpa using ended), rfl⟩

theorem steps_of_follow {mid : Run} {count : Nat} (led : run.follow count = (mid, none)) :
    mid.steps = run.steps + count := by
  induction count generalizing run with
  | zero =>
    obtain rfl := (Prod.mk.inj led).1
    rfl
  | succ count ih =>
    rcases stepped : run.next with ⟨next, _ | ending⟩
    · rw [follow_succ_of_next count stepped] at led
      rw [ih led, steps_of_next stepped]
      omega
    · simp [follow_succ_of_ending count stepped] at led

theorem steps_next_le (run : Run) : run.next.1.steps ≤ run.steps + 1 := by
  rcases run.next_cases with outside | ⟨i, fault, found, traced, hides⟩ | ⟨i, found, reveals⟩
  · simp [next_of_outside outside]
  · simp [next_of_hides found traced hides]
  · obtain ⟨trace, next⟩ := next_of_reveals found reveals
    rw [next]
    exact Nat.le_refl _

theorem steps_follow_le (run : Run) (count : Nat) :
    (run.follow count).1.steps ≤ run.steps + count := by
  induction count generalizing run with
  | zero => exact Nat.le_refl _
  | succ count ih =>
    have first := run.steps_next_le
    rcases stepped : run.next with ⟨next, _ | ending⟩ <;> rw [stepped] at first <;>
      dsimp only at first
    · rw [follow_succ_of_next count stepped]
      have others := ih next
      omega
    · rw [follow_succ_of_ending count stepped]
      dsimp only
      omega

theorem exists_last {last : Run} {ending : Ending} {limit : Nat}
    (ended : run.follow limit = (last, some ending)) :
    ∃ count mid, count < limit ∧ run.follow count = (mid, none) ∧ mid.next = (last, some ending) := by
  induction limit generalizing run with
  | zero => cases ended
  | succ limit ih =>
    rcases stepped : run.next with ⟨next, _ | ending⟩
    · rw [follow_succ_of_next limit stepped] at ended
      obtain ⟨count, mid, less, led, final⟩ := ih ended
      exact ⟨count + 1, mid, Nat.succ_lt_succ less, by rw [follow_succ_of_next count stepped, led],
        final⟩
    · rw [follow_succ_of_ending limit stepped] at ended
      exact ⟨0, run, Nat.succ_pos limit, rfl, stepped.trans ended⟩

theorem follow_after {mid : Run} {first : Nat} (led : run.follow first = (mid, none))
    (second : Nat) : run.follow (first + second) = mid.follow second := by
  rw [follow_add, led]

theorem follow_one {next : Run} (h : run.next = (next, none)) : run.follow 1 = (next, none) := by
  rw [follow_succ_of_next 0 h, follow_zero]

theorem follow_congr {run' : Run} (same : run.next = run'.next) (count : Nat) :
    run.follow (count + 1) = run'.follow (count + 1) := by
  rw [follow, follow, same]

theorem follow_rest {mid last : Run} {first count : Nat} {ending : Ending}
    (led : run.follow first = (mid, none)) (ended : run.follow count = (last, some ending)) :
    ∃ rest, count = first + rest ∧ mid.follow rest = (last, some ending) := by
  rcases Nat.le_total first count with le | le
  · obtain ⟨rest, rfl⟩ := Nat.exists_eq_add_of_le le
    exact ⟨rest, rfl, (follow_after led rest).symm.trans ended⟩
  · have := follow_of_le le ended
    simp [led] at this

theorem complete_eq_some_iff {result : Run × Ending} :
    run.complete limit = some result ↔
      ∃ last ending, run.follow limit = (last, some ending) ∧ result = (last.close, ending) := by
  rw [complete]
  rcases run.follow limit with ⟨last, _ | ending⟩
  · simp
  · constructor
    · rintro ⟨⟩
      exact ⟨last, ending, rfl, rfl⟩
    · rintro ⟨last', ending', ended, rfl⟩
      cases ended
      rfl

theorem complete_unique {more : Nat} {a b : Run × Ending} (first : run.complete limit = some a)
    (second : run.complete more = some b) : a = b := by
  obtain ⟨last, ending, follows, rfl⟩ := complete_eq_some_iff.1 first
  obtain ⟨last', ending', follows', rfl⟩ := complete_eq_some_iff.1 second
  have both := follow_of_le (Nat.le_max_left limit more) follows
  rw [follow_of_le (Nat.le_max_right limit more) follows'] at both
  cases both
  rfl

/-- What each step keeps, and what holds whenever one ends a run, holds of runs of any length. -/
theorem follow_induction {P : Run → Prop} {Q : Run → Ending → Prop}
    (step : ∀ run, P run →
      P run.next.1 ∧ ∀ ending, run.next.2 = some ending → Q run.next.1 ending)
    (start : P run) (count : Nat) :
    P (run.follow count).1 ∧
      ∀ ending, (run.follow count).2 = some ending → Q (run.follow count).1 ending := by
  induction count generalizing run with
  | zero => exact ⟨start, fun _ ended => by cases ended⟩
  | succ count ih =>
    have here := step run start
    rcases stepped : run.next with ⟨next, _ | ending⟩
    · rw [stepped] at here
      rw [follow_succ_of_next count stepped]
      exact ih here.1
    · rw [stepped] at here
      rw [follow_succ_of_ending count stepped]
      exact here

/-- Two runs stay related, and end alike, for as long as the second does not end in a way that is
left out. -/
theorem follow_alike {R : Run → Run → Prop} {Apart : Ending → Prop}
    (step : ∀ first second : Run, R first second →
      (∀ ending, second.next.2 = some ending → ¬ Apart ending) →
      R first.next.1 second.next.1 ∧ first.next.2 = second.next.2)
    {first second : Run} (start : R first second) (count : Nat)
    (along : ∀ ending, (second.follow count).2 = some ending → ¬ Apart ending) :
    R (first.follow count).1 (second.follow count).1 ∧
      (first.follow count).2 = (second.follow count).2 := by
  induction count generalizing first second with
  | zero => exact ⟨start, rfl⟩
  | succ count ih =>
    rcases stepped : second.next with ⟨after, _ | ending⟩
    · rw [follow_succ_of_next count stepped] at along ⊢
      obtain ⟨kept, same⟩ := step first second start (by simp [stepped])
      rw [stepped] at kept same
      rw [follow_succ_of_next count (Prod.ext rfl same)]
      exact ih kept along
    · rw [follow_succ_of_ending count stepped] at along ⊢
      obtain ⟨kept, same⟩ := step first second start (by rwa [stepped])
      rw [stepped] at kept same
      rw [follow_succ_of_ending count (Prod.ext rfl same)]
      exact ⟨kept, rfl⟩

end Run

namespace Machine.Sound

variable {run : Run} {host : Host} {p : Program} {cells : Nat}

theorem next (sound : run.machine.Sound host p cells) (forward : p.Forward) :
    run.next.1.machine.Sound host p cells ∧ run.next.1.traced = run.traced ∧
      ∀ fault, run.next.2 = some (.faulted fault) → p.MayRaise host run.traced fault := by
  rcases run.next_cases with outside | ⟨i, fault, found, traced, hides⟩ | ⟨i, found, reveals⟩
  · rw [Run.next_of_outside outside]
    exact ⟨sound, rfl, fun _ raised => by cases raised⟩
  · rw [Run.next_of_hides found traced hides]
    refine ⟨sound, rfl, fun _ raised => ?_⟩
    cases raised
    cases fault with
    | unnamed code => exact ⟨traced, i, sound.program ▸ mem_of_next? found, hides.1⟩
    | overlong limit => exact ⟨traced, sound.host ▸ hides.1⟩
    | _ => exact hides.elim
  · obtain ⟨trace, next⟩ := Run.next_of_reveals found reveals
    rw [next]
    have member : i ∈ p := sound.program ▸ mem_of_next? found
    have safe := sound.dispatch (forward i member)
    refine ⟨safe.sound, rfl, fun fault raised => ?_⟩
    have allowed := safe.fault fault (by simpa [Run.dispatch_eq] using raised)
    cases fault with
    | tapeOverflow => exact ⟨i, member, allowed⟩
    | input => exact ⟨i, member, allowed⟩
    | shortage => exact ⟨i, member, allowed⟩
    | unimplemented code =>
      exact ⟨Bool.eq_false_iff.2 fun traced =>
        Opcode.name?_isSome_iff.1 (reveals traced).1 code allowed, i, member, allowed⟩
    | unnamed | noInstruction | offTape | overlong => exact allowed.elim

theorem close (sound : run.machine.Sound host p cells) :
    run.close.machine.Sound host p cells :=
  sound.setConsole _

/-- Whatever happens in a run, its cursor stays on the tape. -/
theorem follow (sound : run.machine.Sound host p cells) (forward : p.Forward) (count : Nat) :
    (run.follow count).1.machine.Sound host p cells ∧ ∀ fault,
      (run.follow count).2 = some (.faulted fault) → p.MayRaise host run.traced fault := by
  have kept := Run.follow_induction
    (P := fun r => r.machine.Sound host p cells ∧ r.traced = run.traced)
    (Q := fun _ ending => ∀ fault, ending = .faulted fault → p.MayRaise host run.traced fault)
    (fun r ⟨here, traced⟩ => by
      obtain ⟨after, same, faults⟩ := here.next forward
      refine ⟨⟨after, same.trans traced⟩, ?_⟩
      rintro ending ended fault rfl
      exact traced ▸ faults fault ended)
    ⟨sound, rfl⟩ count
  exact ⟨kept.1.1, fun fault ended => kept.2 _ ended fault rfl⟩

end Machine.Sound
end TapeVM
