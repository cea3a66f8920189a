import TapeVM.Proofs.Block
import TapeVM.Tape

/-! The tape language by its bracket trees: what one action does to a tape, and what a block does.
There are no instructions here, no jumps and no counts; a loop is its body over and over. As it may
not end, an interpretation is cut off at a depth that the caller chooses. -/
namespace TapeVM

namespace Reference

/-- A tape with its cursor, the input not read yet, and the output so far. -/
@[ext] structure State where
  tape : Tape
  cursor : Nat
  inside : cursor < tape.size
  input : List UInt8
  output : List UInt8 := []

inductive Fault where
  | tape | input
  deriving DecidableEq, Repr

/-- The state that was reached, and the fault that ended everything there, if any. -/
abbrev Outcome := State × Option Fault

namespace State

def initial (size : Nat) (positive : 0 < size) (input : List UInt8) : State where
  tape := Tape.blank size
  cursor := 0
  inside := by simpa [Tape.blank] using positive
  input := input

def cell (s : State) : UInt8 :=
  have := s.inside
  s.tape[s.cursor]

def write (s : State) (value : UInt8) : State where
  tape := s.tape.set s.cursor value s.inside
  cursor := s.cursor
  inside := by simpa using s.inside
  input := s.input
  output := s.output

def moveTo (s : State) (cursor : Nat) (inside : cursor < s.tape.size) : State :=
  { s with cursor, inside }

@[simp] theorem cell_write (s : State) (value : UInt8) : (s.write value).cell = value := by
  simp [cell, write]

@[simp] theorem write_write (s : State) (a b : UInt8) : (s.write a).write b = s.write b := by
  simp [write]

@[simp] theorem write_cell (s : State) : s.write s.cell = s := by
  simp [cell, write]

end State

end Reference

open Reference

namespace Action

/-- The first cell stops the cursor, and the last one lets nothing pass. -/
def perform (a : Action) (s : State) : Outcome :=
  match a with
  | increment => (s.write (s.cell + 1), none)
  | decrement => (s.write (s.cell - 1), none)
  | moveLeft => (s.moveTo (s.cursor - 1) (Nat.lt_of_le_of_lt (Nat.sub_le _ _) s.inside), none)
  | moveRight =>
    if inside : s.cursor + 1 < s.tape.size then (s.moveTo (s.cursor + 1) inside, none)
    else (s, some .tape)
  | input =>
    match s.input with
    | [] => (s, some .input)
    | byte :: rest => ({ s.write byte with input := rest }, none)
  | output => ({ s with output := s.output ++ [s.cell] }, none)

def performTimes (a : Action) : Nat → State → Outcome
  | 0, s => (s, none)
  | n + 1, s =>
    match a.perform s with
    | (s, none) => a.performTimes n s
    | (s, some fault) => (s, some fault)

/-- A group of equal actions. However many of them there are, a group of inputs reads once. -/
def performGroup (a : Action) (n : Nat) (s : State) : Outcome :=
  a.performTimes (if a = input then 1 else n) s

theorem performTimes_one (a : Action) (s : State) : a.performTimes 1 s = a.perform s := by
  simp only [performTimes]
  rcases a.perform s with ⟨t, _ | fault⟩ <;> rfl

/-- Changing a cell by the same amount again and again changes it by that many times the amount. -/
theorem performTimes_change {a : Action} {amount : UInt8}
    (once : ∀ s, a.perform s = (s.write (s.cell + amount), none)) (n : Nat) (s : State) :
    a.performTimes n s = (s.write (s.cell + UInt8.ofInt n * amount), none) := by
  induction n generalizing s with
  | zero =>
    have none : s.cell + UInt8.ofInt 0 * amount = s.cell := by
      rw [show UInt8.ofInt 0 = 0 from rfl, UInt8.zero_mul, UInt8.add_zero]
    rw [performTimes, Int.natCast_zero, none, State.write_cell]
  | succ n ih =>
    have more : s.cell + amount + UInt8.ofInt n * amount =
        s.cell + UInt8.ofInt (n + 1 : Nat) * amount := by
      rw [Int.natCast_add, UInt8.ofInt_add, UInt8.add_mul, UInt8.add_assoc,
        UInt8.add_comm amount, Int.natCast_one, UInt8.ofInt_one, UInt8.one_mul]
    simp only [performTimes, once, ih, State.cell_write, State.write_write, more]

theorem performTimes_increment (n : Nat) (s : State) :
    increment.performTimes n s = (s.write (s.cell + UInt8.ofInt n), none) := by
  rw [performTimes_change (fun _ => rfl), UInt8.mul_one]

theorem performTimes_decrement (n : Nat) (s : State) :
    decrement.performTimes n s = (s.write (s.cell - UInt8.ofInt n), none) := by
  have once (s : State) : decrement.perform s = (s.write (s.cell + -1), none) := by
    rw [perform, UInt8.sub_eq_add_neg]
  rw [performTimes_change once, UInt8.mul_neg, UInt8.mul_one, ← UInt8.sub_eq_add_neg]

theorem performTimes_moveLeft (n : Nat) (s : State) :
    moveLeft.performTimes n s =
      (s.moveTo (s.cursor - n) (Nat.lt_of_le_of_lt (Nat.sub_le _ _) s.inside), none) := by
  induction n generalizing s with
  | zero => rfl
  | succ n ih => simp [performTimes, perform, ih, State.moveTo, Nat.sub_sub, Nat.add_comm 1]

theorem performTimes_moveRight {n : Nat} {s : State} (inside : s.cursor + n < s.tape.size) :
    moveRight.performTimes n s = (s.moveTo (s.cursor + n) inside, none) := by
  induction n generalizing s with
  | zero => rfl
  | succ n ih =>
    have next : s.cursor + 1 < s.tape.size := by omega
    simp only [performTimes, perform, next, dif_pos]
    rw [ih (by simp [State.moveTo]; omega)]
    simp [State.moveTo, Nat.add_assoc, Nat.add_comm 1]

theorem performTimes_moveRight_of_le {n : Nat} {s : State} (outside : s.tape.size ≤ s.cursor + n) :
    ∃ inside, moveRight.performTimes n s = (s.moveTo (s.tape.size - 1) inside, some .tape) := by
  induction n generalizing s with
  | zero =>
    have := s.inside
    omega
  | succ n ih =>
    simp only [performTimes, perform]
    by_cases next : s.cursor + 1 < s.tape.size
    · simp only [next, dif_pos]
      exact ih (s := s.moveTo (s.cursor + 1) next) (by simp [State.moveTo]; omega)
    · have last : s.tape.size - 1 = s.cursor := by
        have := s.inside
        omega
      simp only [next, last]
      exact ⟨s.inside, rfl⟩

theorem performTimes_output (n : Nat) (s : State) :
    output.performTimes n s = ({ s with output := s.output ++ List.replicate n s.cell }, none) := by
  induction n generalizing s with
  | zero => simp [performTimes]
  | succ n ih => simp [performTimes, perform, ih, State.cell, List.replicate_succ]

end Action

namespace Block

/-- What a block does, if that is over before the depth is used up. An input that is followed by
another one is left to that one. -/
def interpret : (depth : Nat) → Block Action → State → Option Outcome
  | 0, _, _ => none
  | _ + 1, stop, s => some (s, none)
  | depth + 1, action a rest, s =>
    if a = .input ∧ rest.first? = some .input then interpret depth rest s
    else
      match a.perform s with
      | (s, none) => interpret depth rest s
      | (s, some fault) => some (s, some fault)
  | depth + 1, loop body rest, s =>
    if s.cell = 0 then interpret depth rest s
    else
      match interpret depth body s with
      | some (s, none) => interpret depth (loop body rest) s
      | ended => ended

/-- Some depth is enough for the block. -/
def Ends (b : Block Action) (s : State) : Prop := ∃ depth outcome, b.interpret depth s = some outcome

theorem interpret_succ {depth : Nat} {b : Block Action} {s : State} {outcome : Outcome}
    (ended : b.interpret depth s = some outcome) : b.interpret (depth + 1) s = some outcome := by
  induction depth generalizing b s outcome with
  | zero => cases ended
  | succ depth ih =>
    cases b with
    | stop => exact ended
    | action a rest =>
      rw [interpret] at ended ⊢
      by_cases skipped : a = .input ∧ rest.first? = some .input
      · rw [if_pos skipped] at ended ⊢
        exact ih ended
      · rw [if_neg skipped] at ended ⊢
        rcases performed : a.perform s with ⟨t, _ | fault⟩
        · simp only [performed] at ended ⊢
          exact ih ended
        · simpa only [performed] using ended
    | loop body rest =>
      rw [interpret] at ended ⊢
      by_cases zero : s.cell = 0
      · rw [if_pos zero] at ended ⊢
        exact ih ended
      · rw [if_neg zero] at ended ⊢
        rcases inner : body.interpret depth s with _ | ⟨t, _ | fault⟩
        · simp [inner] at ended
        · simp only [inner] at ended
          simp only [ih inner]
          exact ih ended
        · simp only [inner] at ended
          simp only [ih inner]
          exact ended

/-- What has ended at some depth ends in the same way at every greater one. -/
theorem interpret_of_le {depth more : Nat} {b : Block Action} {s : State} {outcome : Outcome}
    (le : depth ≤ more) (ended : b.interpret depth s = some outcome) :
    b.interpret more s = some outcome := by
  induction le with
  | refl => exact ended
  | step _ ih => exact interpret_succ ih

theorem first?_repeated (a : Action) {n : Nat} (positive : 1 ≤ n) (rest : Block Action) :
    (repeated a n rest).first? = some a := by
  obtain ⟨n, rfl⟩ := Nat.exists_eq_add_of_le' positive
  rfl

theorem interpret_repeated_input (depth n : Nat) (rest : Block Action) (s : State) :
    interpret (depth + n) (repeated .input (n + 1) rest) s =
      interpret depth (action .input rest) s := by
  induction n with
  | zero => rfl
  | succ n ih =>
    rw [← ih, ← Nat.add_assoc, repeated, interpret,
      if_pos ⟨rfl, first?_repeated .input (Nat.le_add_left 1 n) rest⟩]

theorem interpret_repeated_of_ne (depth n : Nat) {a : Action} (rest : Block Action) (s : State)
    (plain : a ≠ .input) :
    interpret (depth + n) (repeated a n rest) s =
      match a.performTimes n s with
      | (t, none) => rest.interpret depth t
      | (t, some fault) => some (t, some fault) := by
  induction n generalizing s with
  | zero => rfl
  | succ n ih =>
    rw [← Nat.add_assoc, repeated, interpret, if_neg (by simp [plain]), Action.performTimes]
    rcases a.perform s with ⟨t, _ | fault⟩
    · exact ih t
    · rfl

/-- A stretch of equal actions is interpreted as one group. -/
theorem interpret_repeated (depth : Nat) {n : Nat} {a : Action} {rest : Block Action} (s : State)
    (positive : 1 ≤ n) (last : rest.first? ≠ some a) :
    interpret (depth + n) (repeated a n rest) s =
      match a.performGroup n s with
      | (t, none) => rest.interpret depth t
      | (t, some fault) => some (t, some fault) := by
  by_cases is : a = .input
  · have single : rest.first? ≠ some .input := is ▸ last
    obtain ⟨n, rfl⟩ := Nat.exists_eq_add_of_le' positive
    rw [is, ← Nat.add_assoc, Nat.add_right_comm, interpret_repeated_input, interpret,
      if_neg (by simp [single]), Action.performGroup, if_pos rfl, Action.performTimes_one]
  · rw [interpret_repeated_of_ne _ _ _ _ is, Action.performGroup, if_neg is]

theorem Folded.first?_unfold {b : Block (Action × Nat)} (folded : b.Folded) :
    b.unfold.first? = b.first?.map Prod.fst := by
  cases folded with
  | stop => rfl
  | action positive => exact first?_repeated _ positive _
  | loop => rfl

end Block
end TapeVM
