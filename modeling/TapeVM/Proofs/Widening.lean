import TapeVM.Proofs.Step

/-! Widening: a run that fits on its tape goes the same way on a longer one. An instruction touches
no cell but the one under the cursor, and the length of the tape matters to a single test, whether a
shift to the right overflows. -/
namespace TapeVM

namespace Machine

variable {m : Machine} {i : Instruction}

/-- The machine with more cells behind its tape. -/
def widen (m : Machine) (rest : Tape) : Machine := { m with tape := m.tape ++ rest }

theorem cell?_widen (inside : m.cursor < m.tape.size) (rest : Tape) :
    (m.widen rest).cell? = m.cell? :=
  Array.getElem?_append_left inside

theorem onCell_widen (inside : m.cursor < m.tape.size) (rest : Tape) (change : UInt8 → UInt8) :
    (m.widen rest).onCell change = ((m.onCell change).1.widen rest, (m.onCell change).2) := by
  have inside' : (m.widen rest).cursor < (m.widen rest).tape.size := by
    simp only [widen, Array.size_append]
    omega
  rw [onCell_of_lt inside, onCell_of_lt inside']
  simp [widen, Array.getElem_append_left inside, Array.set_append_left inside]

theorem shiftRight_widen {amount : Int} (rest : Tape)
    (fits : ∀ size excess, (m.shiftRight amount).2 ≠ some (.tapeOverflow size excess)) :
    (m.widen rest).shiftRight amount =
      ((m.shiftRight amount).1.widen rest, (m.shiftRight amount).2) := by
  have inside : (m.cursor + amount).toNat < m.tape.size :=
    Decidable.byContradiction fun outside => fits _ _ (by rw [shiftRight, if_neg outside])
  have inside' : (m.cursor + amount).toNat < (m.tape ++ rest).size := by
    rw [Array.size_append]
    omega
  rw [shiftRight, shiftRight, if_pos inside]
  exact if_pos inside'

theorem output_widen (inside : m.cursor < m.tape.size) (rest : Tape) (amount : Int) :
    (m.widen rest).output amount = ((m.output amount).1.widen rest, (m.output amount).2) := by
  rw [output, output, cell?_widen inside, show (m.widen rest).host = m.host from rfl]
  cases m.cell? <;> cases m.host.shortage? amount <;> rfl

theorem jumpIf_widen (inside : m.cursor < m.tape.size) (rest : Tape) (condition : UInt8 → Bool)
    (target : Int) : (m.widen rest).jumpIf condition target =
      ((m.jumpIf condition target).1.widen rest, (m.jumpIf condition target).2) := by
  rw [jumpIf, jumpIf, cell?_widen inside]
  cases m.cell? with
  | none => rfl
  | some value => by_cases taken : condition value <;> simp [taken, widen]

theorem input_widen (inside : m.cursor < m.tape.size) (rest : Tape) :
    (m.widen rest).input = (m.input.1.widen rest, m.input.2) := by
  have same : (m.widen rest).console = m.console := rfl
  cases given : m.console.flush.read.1.byte? with
  | some byte =>
    rw [input_of_byte given, input_of_byte (same ▸ given)]
    exact onCell_widen (m := { m with console := m.console.flush.read.2 }) inside rest _
  | none =>
    rw [input_of_none given, input_of_none (same ▸ given)]
    rfl

/-- An instruction that does not overflow the tape does the same on a longer one. -/
theorem execute_widen (inside : m.cursor < m.tape.size) (rest : Tape)
    (fits : ∀ size excess, (m.execute i).2 ≠ some (.tapeOverflow size excess)) :
    (m.widen rest).execute i = ((m.execute i).1.widen rest, (m.execute i).2) := by
  obtain ⟨op, operand⟩ := i
  cases op with
  | add => exact onCell_widen inside rest (· + UInt8.ofInt operand)
  | sub => exact onCell_widen inside rest (· - UInt8.ofInt operand)
  | shiftLeft => rfl
  | shiftRight => exact shiftRight_widen rest fits
  | jumpIfZero => exact jumpIf_widen inside rest _ operand
  | jumpIfNonZero => exact jumpIf_widen inside rest _ operand
  | input => exact input_widen inside rest
  | output => exact output_widen inside rest operand
  | unassigned => rfl

theorem dispatch_widen (inside : m.cursor < m.tape.size) (rest : Tape)
    (fits : ∀ size excess, (m.dispatch i).2 ≠ some (.tapeOverflow size excess)) :
    (m.widen rest).dispatch i = ((m.dispatch i).1.widen rest, (m.dispatch i).2) := by
  have executed : (m.widen rest).execute i = ((m.execute i).1.widen rest, (m.execute i).2) := by
    refine execute_widen inside rest fun size excess overflow => fits size excess ?_
    rw [dispatch_eq, overflow]
    exact overflow
  rw [dispatch, dispatch, executed]
  rcases m.execute i with ⟨after, _ | fault⟩ <;> rfl

theorem Sound.dispatch_overflow {host : Host} {p : Program} {cells size excess : Nat}
    (sound : m.Sound host p cells)
    (forward : i.Forward) (overflow : (m.dispatch i).2 = some (.tapeOverflow size excess)) :
    (m.dispatch i).1 = m := by
  have shifts : i.op = .shiftRight := (sound.dispatch forward).fault _ overflow
  have executed : m.dispatch i = m.shiftRight i.operand := by
    rw [dispatch_of_fault overflow, Machine.execute, shifts]
  rw [executed, Machine.shiftRight] at overflow ⊢
  split
  · rename_i inside
    simp [if_pos inside] at overflow
  · rfl

end Machine

/-- A run on a longer tape goes along with another, up to what they trace. -/
structure Run.Widens (rest : Tape) (large small : Run) : Prop where
  machine : large.machine = small.machine.widen rest
  traced : large.traced = small.traced
  steps : large.steps = small.steps

namespace Run.Widens

variable {rest : Tape} {large small : Run} {host : Host} {p : Program} {cells : Nat}

theorem next (widens : Widens rest large small) (sound : small.machine.Sound host p cells)
    (fits : ∀ size excess, small.next.2 ≠ some (.faulted (.tapeOverflow size excess))) :
    Widens rest large.next.1 small.next.1 ∧ large.next.2 = small.next.2 := by
  have same : large.machine.next? = small.machine.next? := by
    rw [widens.machine]
    rfl
  obtain ⟨machine, traced, ended, steps⟩ := next_alike
    (R := fun large small => large = small.widen rest) widens.machine widens.traced same
    (fun i shows => by
      rw [widens.machine, widens.steps]
      exact shows.of_le (Nat.le_refl _) rfl rfl rfl)
    (fun i fault _ _ hides => by
      rw [widens.machine, widens.steps]
      exact (Machine.hides_congr rfl rfl rfl).2 hides)
    fun i found way => by
      have dispatched : large.machine.dispatch i =
          ((small.machine.dispatch i).1.widen rest, (small.machine.dispatch i).2) := by
        rw [widens.machine]
        refine Machine.dispatch_widen sound.inside rest fun size excess overflow => ?_
        exact fits size excess (by rw [way, overflow]; rfl)
      rw [dispatched]
      exact ⟨rfl, rfl⟩
  rw [widens.steps] at steps
  exact ⟨⟨machine, traced, by omega⟩, ended⟩

theorem close (widens : Widens rest large small) : Widens rest large.close small.close := by
  refine ⟨?_, widens.traced, widens.steps⟩
  rw [Run.close, Run.close, widens.machine]
  rfl

theorem follow (widens : Widens rest large small) (sound : small.machine.Sound host p cells)
    (forward : p.Forward) (count : Nat)
    (fits : ∀ size excess, (small.follow count).2 ≠ some (.faulted (.tapeOverflow size excess))) :
    Widens rest (large.follow count).1 (small.follow count).1 ∧
      (large.follow count).2 = (small.follow count).2 := by
  have step (large small : Run) (along : Widens rest large small ∧ small.machine.Sound host p cells)
      (fits : ∀ ending, small.next.2 = some ending →
        ¬ ∃ size excess, ending = .faulted (.tapeOverflow size excess)) :
      (Widens rest large.next.1 small.next.1 ∧ small.next.1.machine.Sound host p cells) ∧
        large.next.2 = small.next.2 := by
    obtain ⟨widens', ended⟩ := along.1.next along.2 fun size excess overflow =>
      fits _ overflow ⟨size, excess, rfl⟩
    exact ⟨⟨widens', (along.2.next forward).1⟩, ended⟩
  obtain ⟨⟨widens', -⟩, ended⟩ := follow_alike step ⟨widens, sound⟩ count (by
    rintro _ overflow ⟨size, excess, rfl⟩
    exact fits size excess overflow)
  exact ⟨widens', ended⟩

end Run.Widens

namespace Machine

end Machine

end TapeVM
