import TapeVM.Machine.Run
import TapeVM.Proofs.Linking
import TapeVM.Proofs.Reference

/-! Simulation: a machine that stands at the code of a block does in one step what the next group of
actions does, and its jumps do what the brackets of a loop ask for. -/
namespace TapeVM

open Reference

/-- A list of instructions stands in a program, from an index on. -/
def Program.Holds (p : Program) (start : Nat) (l : List Instruction) : Prop :=
  ∀ (k : Nat) instruction, l[k]? = some instruction → p[start + k]? = some instruction

theorem Program.holds_cons {p : Program} {start : Nat} {i : Instruction} {l : List Instruction} :
    p.Holds start (i :: l) ↔ p[start]? = some i ∧ p.Holds (start + 1) l := by
  constructor
  · intro holds
    refine ⟨holds 0 i rfl, fun k instruction here => ?_⟩
    rw [Nat.add_assoc, Nat.add_comm 1]
    exact holds (k + 1) instruction here
  · rintro ⟨first, rest⟩ k instruction here
    cases k with
    | zero => exact first.trans here
    | succ k =>
      rw [← Nat.add_assoc, Nat.add_right_comm]
      exact rest k instruction here

theorem Program.holds_append {p : Program} {start : Nat} {a b : List Instruction} :
    p.Holds start (a ++ b) ↔ p.Holds start a ∧ p.Holds (start + a.length) b := by
  induction a generalizing start with
  | nil => simp [Holds]
  | cons i a ih =>
    rw [List.cons_append, holds_cons, holds_cons, ih, List.length_cons, Nat.add_right_comm,
      Nat.add_assoc, and_assoc]

namespace Machine

/-- A machine has the tape of a state, the output it made and the input it left. -/
structure Shows (m : Machine) (s : State) : Prop where
  tape : m.tape = s.tape
  pending : m.console.pending = (Console.ofBytes s.input).pending
  output : m.console.output = s.output

/-- The cursor agrees too. -/
structure Mirrors (m : Machine) (s : State) : Prop extends Shows m s where
  cursor : m.cursor = s.cursor

variable {m : Machine} {s : State}

theorem Mirrors.setPc (mirrors : m.Mirrors s) (pc : Int) : ({ m with pc } : Machine).Mirrors s where
  tape := mirrors.tape
  pending := mirrors.pending
  output := mirrors.output
  cursor := mirrors.cursor

theorem Mirrors.cell? (mirrors : m.Mirrors s) : m.cell? = some s.cell := by
  have inside := s.inside
  simp [Machine.cell?, mirrors.tape, mirrors.cursor, State.cell, inside]

theorem Mirrors.onCell (mirrors : m.Mirrors s) (change : UInt8 → UInt8) :
    m.onCell change = ({ m with tape := (s.write (change s.cell)).tape }, none) := by
  obtain ⟨program, pc, tape, cursor, console⟩ := m
  obtain rfl : tape = s.tape := mirrors.tape
  obtain rfl : cursor = s.cursor := mirrors.cursor
  simp [Machine.onCell, s.inside, State.write, State.cell]

theorem Mirrors.jumpIf (mirrors : m.Mirrors s) (condition : UInt8 → Bool) (target : Int) :
    m.jumpIf condition target = (if condition s.cell then { m with pc := target } else m, none) := by
  rw [Machine.jumpIf, mirrors.cell?]

end Machine

/-- The same way to end: normally, on the tape or on the input. -/
inductive SameEnding : Option Reference.Fault → Run.Ending → Prop where
  | finished : SameEnding none .finished
  | tape (size excess : Nat) : SameEnding (some .tape) (.faulted (.tapeOverflow size excess))
  | input : SameEnding (some .input) (.faulted (.input .endOfInput))

/-- A run ended as an interpretation did. On a tape fault the machine may be behind with its cursor,
since it moves the cursor by whole groups only. -/
structure Agrees (outcome : Outcome) (result : Run × Run.Ending) : Prop where
  ending : SameEnding outcome.2 result.2
  shows : result.1.machine.Shows outcome.1
  reached : result.1.machine.cursor ≤ outcome.1.cursor
  cursor : outcome.2 ≠ some .tape → result.1.machine.cursor = outcome.1.cursor

namespace Machine

variable {m : Machine} {s : State}

/-- An instruction did to a machine what a group of actions did to a state. -/
def Matches (m : Machine) : Machine.Outcome → Reference.Outcome → Prop
  | (after, none), (t, none) =>
    after.Mirrors t ∧ after.program = m.program ∧ after.pc = m.pc ∧ after.host = m.host
  | (after, some cause), (t, some fault) =>
    SameEnding (some fault) (.faulted cause) ∧ after.Shows t ∧ after.cursor ≤ t.cursor ∧
      (fault ≠ .tape → after.cursor = t.cursor)
  | _, _ => False

theorem matches_onCell (mirrors : m.Mirrors s) (change : UInt8 → UInt8) :
    m.Matches (m.onCell change) (s.write (change s.cell), none) := by
  rw [mirrors.onCell]
  exact ⟨⟨⟨rfl, mirrors.pending, mirrors.output⟩, mirrors.cursor⟩, rfl, rfl, rfl⟩

theorem matches_shiftLeft (mirrors : m.Mirrors s) (n : Nat) :
    m.Matches (m.shiftLeft n) (Action.moveLeft.performTimes n s) := by
  rw [Action.performTimes_moveLeft]
  refine ⟨⟨⟨mirrors.tape, mirrors.pending, mirrors.output⟩, ?_⟩, rfl, rfl, rfl⟩
  simp only [State.moveTo, mirrors.cursor]
  omega

theorem matches_shiftRight (mirrors : m.Mirrors s) (n : Nat) :
    m.Matches (m.shiftRight n) (Action.moveRight.performTimes n s) := by
  have cursor : ((m.cursor : Int) + n).toNat = s.cursor + n := by
    rw [mirrors.cursor]
    omega
  simp only [shiftRight, cursor, mirrors.tape]
  by_cases inside : s.cursor + n < s.tape.size
  · rw [Action.performTimes_moveRight inside, if_pos inside]
    exact ⟨⟨⟨rfl, mirrors.pending, mirrors.output⟩, rfl⟩, rfl, rfl, rfl⟩
  · obtain ⟨last, performed⟩ := Action.performTimes_moveRight_of_le (Nat.le_of_not_lt inside)
    rw [performed, if_neg inside]
    refine ⟨.tape _ _, ⟨mirrors.tape, mirrors.pending, mirrors.output⟩, ?_, fun other => ?_⟩
    · rw [mirrors.cursor]
      exact Nat.le_sub_one_of_lt s.inside
    · exact (other rfl).elim

theorem matches_output (mirrors : m.Mirrors s) {n : Nat} (room : m.host.shortage? n = none) :
    m.Matches (m.output n) (Action.output.performTimes n s) := by
  rw [Action.performTimes_output, Machine.output, mirrors.cell?, room]
  refine ⟨⟨⟨mirrors.tape, mirrors.pending, ?_⟩, mirrors.cursor⟩, rfl, rfl, rfl⟩
  simp [mirrors.output]

theorem matches_input (mirrors : m.Mirrors s) : m.Matches m.input (Action.input.perform s) := by
  have pending : m.console.pending = s.input.map fun byte => .bytes [byte] := mirrors.pending
  have written : m.console.flush.read.2.output = s.output := by simp [mirrors.output]
  rw [Machine.input, Action.perform]
  cases input : s.input with
  | nil =>
    rw [input, List.map_nil] at pending
    have read : m.console.flush.read.1 = .nothing := by simp [Console.read, pending]
    have left : m.console.flush.read.2.pending = [] := by simp [pending]
    simp only [read]
    refine ⟨.input, ⟨mirrors.tape, ?_, written⟩, Nat.le_of_eq mirrors.cursor, fun _ => mirrors.cursor⟩
    rw [input]
    exact left
  | cons byte rest =>
    rw [input, List.map_cons] at pending
    have read : m.console.flush.read.1 = .bytes [byte] := by simp [Console.read, pending]
    have left : m.console.flush.read.2.pending = rest.map fun byte => .bytes [byte] := by
      simp [pending]
    simp only [read]
    have mirrors' : ({ m with console := m.console.flush.read.2 } : Machine).Mirrors
        { s with input := rest } := ⟨⟨mirrors.tape, left, written⟩, mirrors.cursor⟩
    exact matches_onCell mirrors' fun _ => byte

/-- The instruction of a group of actions does what the group does, if there can be that much
output. -/
theorem matches_execute (mirrors : m.Mirrors s) (a : Action) {n : Nat}
    (room : m.host.shortage? n = none) :
    m.Matches (m.execute (.ofSymbol a.symbol n)) (a.performGroup n s) := by
  cases a with
  | increment =>
    rw [Action.performGroup, if_neg (by decide), Action.performTimes_increment]
    exact matches_onCell mirrors (· + UInt8.ofInt n)
  | decrement =>
    rw [Action.performGroup, if_neg (by decide), Action.performTimes_decrement]
    exact matches_onCell mirrors (· - UInt8.ofInt n)
  | moveLeft => exact matches_shiftLeft mirrors n
  | moveRight => exact matches_shiftRight mirrors n
  | input =>
    rw [Action.performGroup, if_pos rfl, Action.performTimes_one]
    exact matches_input mirrors
  | output => exact matches_output mirrors room

end Machine
end TapeVM
