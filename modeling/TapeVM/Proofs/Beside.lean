import TapeVM.Proofs.Step

/-! Machines beside each other: the same program at the same place on the same tape, with consoles
that differ in a way the caller chooses. Most operations have nothing to do with the console. If
writing keeps the difference, and a read gives both machines the same, then so does every
instruction. -/
namespace TapeVM

theorem Console.read_fst (console : Console) :
    console.read.1 = console.pending.head?.getD .nothing := by
  rw [read]
  cases console.pending <;> rfl

namespace Machine

variable {R : Console → Console → Prop} {m other : Machine} {i : Instruction}

def withConsole (m : Machine) (console : Console) : Machine := { m with console }

/-- Machines that are the same but for their consoles, which are related. -/
def Beside (R : Console → Console → Prop) (m other : Machine) : Prop :=
  ∃ console, other = m.withConsole console ∧ R m.console console

/-- An operation that has nothing to do with the console. -/
def Quiet (operation : Machine → Outcome) : Prop :=
  ∀ m console, operation (m.withConsole console) =
    ((operation m).1.withConsole console, (operation m).2)

theorem quiet_onCell (change : UInt8 → UInt8) : Quiet (onCell · change) := by
  intro m console
  dsimp only
  by_cases inside : m.cursor < m.tape.size
  · rw [onCell_of_lt inside, onCell_of_lt (m := m.withConsole console) inside]
    rfl
  · rw [onCell, onCell, dif_neg inside]
    exact dif_neg inside

theorem quiet_shiftLeft (amount : Int) : Quiet (shiftLeft · amount) := fun _ _ => rfl

theorem quiet_shiftRight (amount : Int) : Quiet (shiftRight · amount) := by
  intro m console
  dsimp only
  by_cases inside : (m.cursor + amount).toNat < m.tape.size
  · rw [shiftRight, shiftRight, if_pos inside]
    exact if_pos inside
  · rw [shiftRight, shiftRight, if_neg inside]
    exact if_neg inside

theorem quiet_jumpIf (condition : UInt8 → Bool) (target : Int) :
    Quiet (jumpIf · condition target) := by
  intro m console
  dsimp only
  rw [jumpIf, jumpIf, show (m.withConsole console).cell? = m.cell? from rfl]
  cases m.cell? with
  | none => rfl
  | some value => by_cases taken : condition value <;> simp [taken, withConsole]

theorem Quiet.console {operation : Machine → Outcome} (quiet : Quiet operation) (m : Machine) :
    (operation m).1.console = m.console :=
  congrArg (fun outcome : Outcome => outcome.1.console) (quiet m m.console)

namespace Beside

theorem next? (beside : m.Beside R other) : other.next? = m.next? := by
  obtain ⟨console, rfl, -⟩ := beside
  rfl

theorem quiet {operation : Machine → Outcome} (beside : m.Beside R other)
    (quiet : Quiet operation) :
    (operation m).1.Beside R (operation other).1 ∧ (operation other).2 = (operation m).2 := by
  obtain ⟨console, rfl, related⟩ := beside
  rw [quiet]
  exact ⟨⟨console, rfl, quiet.console m ▸ related⟩, rfl⟩

theorem output (beside : m.Beside R other)
    (write : ∀ {a b}, R a b → ∀ content, R (a.write content) (b.write content)) (amount : Int) :
    (m.output amount).1.Beside R (other.output amount).1 ∧
      (other.output amount).2 = (m.output amount).2 := by
  obtain ⟨console, rfl, related⟩ := beside
  rw [Machine.output, Machine.output, show (m.withConsole console).cell? = m.cell? from rfl,
    show (m.withConsole console).host = m.host from rfl]
  cases m.cell? with
  | none => exact ⟨⟨console, rfl, related⟩, rfl⟩
  | some value =>
    cases m.host.shortage? amount with
    | none => exact ⟨⟨console.write _, rfl, write related _⟩, rfl⟩
    | some cause => exact ⟨⟨console, rfl, related⟩, rfl⟩

theorem input (beside : m.Beside R other)
    (read : ∀ console, R m.console console →
      R m.console.flush.read.2 console.flush.read.2 ∧
        console.flush.read.1 = m.console.flush.read.1) :
    m.input.1.Beside R other.input.1 ∧ other.input.2 = m.input.2 := by
  obtain ⟨console, rfl, related⟩ := beside
  obtain ⟨behind, result⟩ := read console related
  have after : Beside R (m.withConsole m.console.flush.read.2)
      (m.withConsole console.flush.read.2) := ⟨_, rfl, behind⟩
  cases given : m.console.flush.read.1.byte? with
  | some byte =>
    rw [input_of_byte given, input_of_byte (m := m.withConsole console) (result ▸ given)]
    exact after.quiet (quiet_onCell fun _ => byte)
  | none =>
    rw [input_of_none given, input_of_none (m := m.withConsole console) (result ▸ given)]
    refine ⟨after, ?_⟩
    rw [show (m.withConsole console).console = console from rfl, result]

/-- An instruction does the same on both machines, if a read it makes gives them the same. -/
theorem execute (beside : m.Beside R other)
    (write : ∀ {a b}, R a b → ∀ content, R (a.write content) (b.write content))
    (read : i.op = .input → ∀ console, R m.console console →
      R m.console.flush.read.2 console.flush.read.2 ∧
        console.flush.read.1 = m.console.flush.read.1) :
    (m.execute i).1.Beside R (other.execute i).1 ∧ (other.execute i).2 = (m.execute i).2 := by
  obtain ⟨op, operand⟩ := i
  cases op with
  | add => exact beside.quiet (quiet_onCell (· + UInt8.ofInt operand))
  | sub => exact beside.quiet (quiet_onCell (· - UInt8.ofInt operand))
  | shiftLeft => exact beside.quiet (quiet_shiftLeft operand)
  | shiftRight => exact beside.quiet (quiet_shiftRight operand)
  | jumpIfZero => exact beside.quiet (quiet_jumpIf (· == 0) operand)
  | jumpIfNonZero => exact beside.quiet (quiet_jumpIf (· != 0) operand)
  | input => exact beside.input (read rfl)
  | output => exact beside.output write operand
  | unassigned => exact ⟨beside, rfl⟩

theorem dispatch (beside : m.Beside R other)
    (write : ∀ {a b}, R a b → ∀ content, R (a.write content) (b.write content))
    (read : i.op = .input → ∀ console, R m.console console →
      R m.console.flush.read.2 console.flush.read.2 ∧
        console.flush.read.1 = m.console.flush.read.1) :
    (m.dispatch i).1.Beside R (other.dispatch i).1 ∧ (other.dispatch i).2 = (m.dispatch i).2 := by
  obtain ⟨executed, same⟩ := beside.execute write read
  rw [dispatch_eq, dispatch_eq, same]
  split
  · exact ⟨executed, same⟩
  · obtain ⟨console, machine, related⟩ := executed
    rw [machine]
    exact ⟨⟨console, rfl, related⟩, rfl⟩

end Beside
end Machine
end TapeVM
