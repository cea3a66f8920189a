import Mathlib.Data.List.DropRight
import Mathlib.Logic.Function.Iterate
import TapeVM.Failure
import TapeVM.Proofs.Observation
import TapeVM.Proofs.Widening

/-! Atomicity: what a run leaves behind when it fails. An instruction that fails has touched nothing
but the console, so the machine stands where the instruction before it has left it; and if it was no
read that failed, the machine fails there again and again. -/
namespace TapeVM

/-- What has reached the other side: everything written before the last flush. -/
def Console.delivered (console : Console) : List UInt8 :=
  output { console with calls := (console.calls.toList.rdropWhile (· ≠ .flush)).toArray }

@[simp] theorem Console.delivered_flush (console : Console) :
    console.flush.delivered = console.output := by
  simp [delivered, flush, output]

namespace Machine

variable {m : Machine} {i : Instruction} {host : Host} {p : Program} {cells : Nat} {fault : Fault}

/-- An instruction cannot be carried out, and why: the cursor would leave the tape, a read gives no
byte, there can be no text as long as the output, or there is no such operation. -/
def Refuses (m : Machine) (i : Instruction) : Fault → Prop
  | .tapeOverflow size excess =>
    i.op = .shiftRight ∧ size = m.tape.size ∧ m.cursor + i.operand = (size + excess : Nat)
  | .input cause =>
    i.op = .input ∧ m.console.read.1.byte? = none ∧ cause = m.console.read.1.failure
  | .unimplemented code => i.op = .unassigned code
  | .shortage cause => i.op = .output ∧ m.host.shortage? i.operand = some cause
  | .unnamed _ | .noInstruction | .offTape | .overlong _ => False

def flush (m : Machine) : Machine := { m with console := m.console.flush }

theorem exists_iterate_flush (m : Machine) (times : Nat) :
    ∃ console, flush^[times] m = m.withConsole console ∧ console.output = m.console.output := by
  induction times with
  | zero => exact ⟨m.console, rfl, rfl⟩
  | succ times ih =>
    obtain ⟨console, same, unwritten⟩ := ih
    refine ⟨console.flush, ?_, by rw [Console.output_flush, unwritten]⟩
    rw [Function.iterate_succ_apply', same]
    rfl

theorem fault_dispatch (m : Machine) (i : Instruction) : (m.dispatch i).2 = (m.execute i).2 := by
  rw [dispatch]
  rcases m.execute i with ⟨after, _ | fault⟩ <;> rfl

theorem execute_of_shiftRight (m : Machine) (shifts : i.op = .shiftRight) :
    m.execute i = m.shiftRight i.operand := by
  rw [execute, shifts]

theorem execute_of_output (m : Machine) (writes : i.op = .output) :
    m.execute i = m.output i.operand := by
  rw [execute, writes]

theorem read_flush (console : Console) : console.flush.read.1 = console.read.1 := by
  rw [Console.read_fst, Console.read_fst, Console.pending_flush]

theorem shiftRight_fault_iff {amount : Int} {size excess : Nat} (inside : m.cursor < m.tape.size) :
    (m.shiftRight amount).2 = some (.tapeOverflow size excess) ↔
      size = m.tape.size ∧ m.cursor + amount = (size + excess : Nat) := by
  rw [shiftRight]
  split
  · rename_i fits
    constructor
    · simp
    · rintro ⟨rfl, overflow⟩
      omega
  · rename_i leaves
    simp only [Option.some.injEq, Fault.tapeOverflow.injEq]
    omega

theorem input_fault_iff {cause : InputFault} (inside : m.cursor < m.tape.size) :
    m.input.2 = some (.input cause) ↔
      m.console.read.1.byte? = none ∧ cause = m.console.read.1.failure := by
  rw [← read_flush]
  constructor
  · exact input_fault inside
  · rintro ⟨missing, rfl⟩
    rw [input_of_none missing]

theorem exists_index_of_next? (found : m.next? = some i) :
    ∃ index : Nat, m.program[index]? = some i ∧ m.pc = index := by
  rw [next?] at found
  split at found
  · exact ⟨m.pc.toNat, found, by omega⟩
  · cases found

/-- On the tape an instruction fails exactly when it has to. -/
theorem Sound.dispatch_fault_iff (sound : m.Sound host p cells) (forward : i.Forward) :
    (m.dispatch i).2 = some fault ↔ m.Refuses i fault := by
  have allowed := (sound.dispatch forward).fault fault
  rw [fault_dispatch] at allowed ⊢
  cases fault with
  | tapeOverflow size excess =>
    have shift (shifts : i.op = .shiftRight) := execute_of_shiftRight m shifts
    constructor
    · intro raised
      have shifts := allowed raised
      rw [shift shifts, shiftRight_fault_iff sound.inside] at raised
      exact ⟨shifts, raised⟩
    · rintro ⟨shifts, overflow⟩
      rw [shift shifts, shiftRight_fault_iff sound.inside]
      exact overflow
  | input cause =>
    have read (reads : i.op = .input) := execute_of_input m reads
    constructor
    · intro raised
      have reads := allowed raised
      rw [read reads, input_fault_iff sound.inside] at raised
      exact ⟨reads, raised⟩
    · rintro ⟨reads, missing⟩
      rw [read reads, input_fault_iff sound.inside]
      exact missing
  | unimplemented code =>
    rw [← fault_dispatch]
    exact dispatch_unimplemented_iff
  | shortage cause =>
    constructor
    · intro raised
      obtain ⟨writes, short⟩ := allowed raised
      exact ⟨writes, sound.host.symm ▸ short⟩
    · rintro ⟨writes, short⟩
      rw [execute_of_output m writes, output_of_shortage sound.inside short]
  | unnamed | noInstruction | offTape | overlong => exact ⟨allowed, False.elim⟩

/-- An instruction that fails leaves all but the console alone, and writes nothing. -/
theorem Sound.dispatch_fails (sound : m.Sound host p cells) (forward : i.Forward)
    (raised : (m.dispatch i).2 = some fault) :
    (∃ console, (m.dispatch i).1 = m.withConsole console ∧ console.output = m.console.output) ∧
      ((∀ cause, fault ≠ .input cause) → (m.dispatch i).1 = m) := by
  have refused := (sound.dispatch_fault_iff forward).1 raised
  cases fault with
  | tapeOverflow size excess =>
    have kept := sound.dispatch_overflow forward raised
    exact ⟨⟨m.console, kept, rfl⟩, fun _ => kept⟩
  | input cause =>
    obtain ⟨reads, missing, -⟩ := refused
    rw [dispatch_of_fault raised, execute_of_input m reads,
      input_of_none (by rwa [read_flush])]
    exact ⟨⟨_, rfl, by simp⟩, fun other => (other cause rfl).elim⟩
  | unimplemented code =>
    rw [dispatch_of_unassigned refused]
    exact ⟨⟨m.console, rfl, rfl⟩, fun _ => rfl⟩
  | shortage cause =>
    obtain ⟨writes, short⟩ := refused
    rw [dispatch_of_fault raised, execute_of_output m writes, output_of_shortage sound.inside short]
    exact ⟨⟨m.console, rfl, rfl⟩, fun _ => rfl⟩
  | unnamed | noInstruction | offTape | overlong => exact refused.elim

theorem Refuses.withConsole (refused : m.Refuses i fault) (other : ∀ cause, fault ≠ .input cause)
    (console : Console) : (m.withConsole console).Refuses i fault := by
  cases fault with
  | input cause => exact (other cause rfl).elim
  | _ => exact refused

/-- Where an instruction has failed that was no read, it fails whenever it is tried again. -/
theorem Sound.dispatch_iterate_flush (sound : m.Sound host p cells) (forward : i.Forward)
    (refused : m.Refuses i fault) (other : ∀ cause, fault ≠ .input cause) (times : Nat) :
    (flush^[times] m).dispatch i = (flush^[times] m, some fault) := by
  obtain ⟨console, same, -⟩ := m.exists_iterate_flush times
  rw [same]
  have sound' : (m.withConsole console).Sound host p cells := sound.setConsole console
  have raised := (sound'.dispatch_fault_iff forward).2 (refused.withConsole other console)
  exact Prod.ext ((sound'.dispatch_fails forward raised).2 other) raised

theorem next?_iterate_flush (m : Machine) (times : Nat) : (flush^[times] m).next? = m.next? := by
  obtain ⟨console, same, -⟩ := m.exists_iterate_flush times
  rw [same]
  rfl

end Machine

theorem Run.complete_of_fault {m : Machine} {i : Instruction} {fault : Machine.Fault}
    (found : m.next? = some i) (raised : m.dispatch i = (m, some fault)) {verbosity : Int}
    (quiet : verbosity ≤ 0) (limit : Nat) :
    (m.start verbosity).complete (limit + 1) =
      some ({ machine := m.flush, steps := 1 }, .faulted fault) := by
  have untraced : (m.start verbosity).traced = false := decide_eq_false (by omega)
  have step : (m.start verbosity).next =
      ({ machine := m, steps := 1 }, some (.faulted fault)) := by
    have start : m.start verbosity = { machine := m } := by
      rw [Machine.start, show decide (0 < verbosity) = false from untraced]
    rw [start, next]
    simp [found, dispatch_eq, raised]
  rw [complete, follow_succ_of_ending limit step]
  rfl

/-- A run that fails stops at the instruction that failed, as the instructions before it have left
the machine: all that they wrote has been flushed, and the instruction is counted. The fault is the
one reason why that instruction cannot be carried out there; it comes out as such unless its message
holds a number that the host cannot write. Unless it is a read that failed, running the machine
again changes nothing: each time the same instruction fails in the same way. -/
theorem failing_instruction_is_atomic {m : Machine} (shifts : m.program.Forward)
    (inside : m.cursor < m.tape.size) {verbosity : Int} (quiet : verbosity ≤ 0) {limit : Nat}
    {last : Run} {fault : Machine.Fault}
    (completed : (m.start verbosity).complete limit = some (last, .faulted fault)) :
    ∃ (count index : Nat) (before : Run) (i : Instruction),
      (m.start verbosity).follow count = (before, none) ∧
      m.program[index]? = some i ∧ before.machine.pc = index ∧
      last.machine.program = m.program ∧ last.machine.pc = index ∧
      last.machine.cursor = before.machine.cursor ∧ last.machine.tape = before.machine.tape ∧
      (∀ other, other = fault ↔ before.machine.Refuses i other) ∧
      ((∀ n ∈ fault.numbers, m.host.Writes n) →
        (Failure.running fault).raised m.host = .running fault) ∧
      ((¬ ∀ n ∈ fault.numbers, m.host.Writes n) → ∃ digits, m.host.digits = some digits ∧
        (Failure.running fault).raised m.host = .overlong digits) ∧
      last.machine.console.output = before.machine.console.output ∧
      last.machine.console.delivered = before.machine.console.output ∧
      (∀ stats : Statistics,
        (last.account stats).countOf "steps" = stats.countOf "steps" + (count + 1 : Nat)) ∧
      ((∀ cause, fault ≠ .input cause) → ∀ times more : Nat,
        ((Machine.flush^[times] last.machine).start verbosity).complete (more + 1) =
          some ({ machine := Machine.flush^[times + 1] last.machine, steps := 1 },
            .faulted fault) ∧
        (Machine.flush^[times] last.machine).console.output = last.machine.console.output) := by
  have start : (m.start verbosity).machine.Sound m.host m.program m.tape.size :=
    ⟨rfl, rfl, rfl, inside⟩
  have untraced : (m.start verbosity).traced = false := decide_eq_false (by omega)
  obtain ⟨final, _, followed, same⟩ := Run.complete_eq_some_iff.1 completed
  cases same
  obtain ⟨count, before, -, led, ended⟩ := Run.exists_last followed
  have sound : before.machine.Sound m.host m.program m.tape.size := by
    have kept := (start.follow shifts count).1
    rwa [led] at kept
  have silent : before.traced = false := by
    obtain ⟨_, -, -, recorded, -⟩ := (m.start verbosity).follow_course count
    rw [led] at recorded
    exact recorded.traced.trans untraced
  obtain ⟨i, found, dispatched, steps⟩ :=
    Run.exists_dispatch ended fun traced => by simp [silent] at traced
  have forward : i.Forward := shifts i (sound.program ▸ Machine.mem_of_next? found)
  have raised : (before.machine.dispatch i).2 = some fault := by rw [dispatched]
  obtain ⟨⟨console, left, unwritten⟩, unchanged⟩ := sound.dispatch_fails forward raised
  rw [dispatched] at left unchanged
  obtain ⟨index, here, place⟩ := Machine.exists_index_of_next? found
  rw [sound.program] at here
  have closed : final.close.machine = (before.machine.withConsole console).flush := by
    rw [Run.close, show final.machine = _ from left]
    rfl
  refine ⟨count, index, before, i, led, here, place, ?_, ?_, ?_, ?_, ?_,
    fun writes => Failure.raised_of_writes writes,
    fun refused => Failure.exists_raised_eq_overlong refused, ?_, ?_, ?_, ?_⟩
  · rw [closed]
    exact sound.program
  · rw [closed]
    exact place
  · rw [closed]
    rfl
  · rw [closed]
    rfl
  · intro other
    rw [← sound.dispatch_fault_iff forward, raised, Option.some.injEq, eq_comm]
  · rw [closed]
    exact (console.output_flush).trans unwritten
  · rw [closed]
    exact (console.delivered_flush).trans unwritten
  · intro stats
    have counted : before.steps = 0 + count := Run.steps_of_follow led
    rw [Run.account, Statistics.countOf_addCount, Run.close, steps, counted, Nat.zero_add]
  · intro other times more
    have still : final.close.machine = before.machine.flush := by
      rw [Run.close, show final.machine = _ from unchanged other]
      rfl
    obtain ⟨_, same, silent⟩ := Machine.exists_iterate_flush final.close.machine times
    refine ⟨?_, by rw [same, ← silent]; rfl⟩
    rw [still, ← Function.iterate_succ_apply, ← Function.iterate_succ_apply,
      Function.iterate_succ_apply' _ (times + 1)]
    refine Run.complete_of_fault (i := i) ?_ ?_ quiet more
    · rw [Machine.next?_iterate_flush, found]
    · exact sound.dispatch_iterate_flush forward
        ((sound.dispatch_fault_iff forward).1 raised) other (times + 1)

/-- A run may also fail at an output that is too long for the host. -/
theorem huge_output_fails_a_run :
    let m : Machine :=
      { program := #[⟨.output, -1000000000000000000000000000000⟩], tape := #[0] }
    m.program.Forward ∧ m.cursor < m.tape.size ∧
      (m.start 0).complete 1 =
        some ({ machine := m.flush, steps := 1 }, .faulted (.shortage .index)) ∧
      (Failure.running (.shortage .index)).raised m.host = .running (.shortage .index) ∧
      (Failure.running (.shortage .index)).diagnostic? = none :=
  ⟨by simp [Program.Forward, Instruction.Forward], by decide, rfl,
    Failure.raised_of_writes (by simp [Failure.numbers, Machine.Fault.numbers]), rfl⟩

/-- The third instruction would move one cell past the end of the tape, however often it is tried.
-/
theorem failing_instruction_is_atomic_overflow :
    let m : Machine :=
      { program := #[⟨.add, 65⟩, ⟨.output, 2⟩, ⟨.shiftRight, 3⟩, ⟨.input, 1⟩], tape := #[0, 0] }
    let last : Run := ((m.start 0).follow 9).1.close
    m.program.Forward ∧ m.cursor < m.tape.size ∧ (0 : Int) ≤ 0 ∧
      (m.start 0).complete 9 = some (last, .faulted (.tapeOverflow 2 1)) ∧
      last.machine.pc = 2 ∧ last.machine.tape = #[65, 0] ∧ last.steps = 3 ∧
      ∃ (count index : Nat) (before : Run) (i : Instruction),
        (m.start 0).follow count = (before, none) ∧ m.program[index]? = some i ∧
        last.machine.pc = index ∧ last.machine.tape = before.machine.tape ∧
        before.machine.Refuses i (.tapeOverflow 2 1) ∧
        last.machine.console.delivered = before.machine.console.output ∧
        ∀ times more : Nat,
          ((Machine.flush^[times] last.machine).start 0).complete (more + 1) =
            some ({ machine := Machine.flush^[times + 1] last.machine, steps := 1 },
              .faulted (.tapeOverflow 2 1)) := by
  intro m last
  have shifts : m.program.Forward := by
    simp [m, Program.Forward, Instruction.Forward]
  have completed : (m.start 0).complete 9 = some (last, .faulted (.tapeOverflow 2 1)) := by rfl
  obtain ⟨count, index, before, i, led, here, -, -, place, -, tape, refused, -, -, -, delivered, -,
    again⟩ := failing_instruction_is_atomic shifts (by decide) (Int.le_refl 0) completed
  exact ⟨shifts, by decide, Int.le_refl 0, completed, rfl, rfl, rfl, count, index, before, i, led,
    here, place, tape, (refused _).1 rfl, delivered, fun times more =>
    (again (fun cause => by simp) times more).1⟩

end TapeVM
