import TapeVM.Proofs.Underway

/-! Operations of an assembly, each used on its own and in any order, also after errors and out of
step with the tokens. Little holds then: the open loops stand in the order of their indices, none of
which is beyond the end of the program, and what is in the program stays there, but for the operand
of a loop that is closed. -/
namespace TapeVM.Assembly

inductive Operation where
  | nextToken
  | peek
  | countRun (terminal : Terminal)
  | openLoop (location : Location)
  | closeLoop (location : Location)
  /-- The next instruction is dropped. -/
  | emit
  /-- The next instruction is added to the program. -/
  | step
  | assemble
  | moveTo (position : Nat)
  deriving DecidableEq, Repr

def moveTo (a : Assembly) (position : Nat) : Assembly := { a with position }

def failure? {α : Type} : Except Error α → Option Error
  | .ok _ => none
  | .error e => some e

namespace Operation

/-- The error an operation ends in, if any, and the assembly it leaves. -/
def perform (a : Assembly) : Operation → Option Error × Assembly
  | nextToken => (none, a.nextToken.2)
  | peek => (none, a)
  | countRun terminal => (none, (a.countRun terminal).2)
  | openLoop location => (none, (a.openLoop location).2)
  | closeLoop location => (failure? (a.closeLoop location).1, (a.closeLoop location).2)
  | emit => (failure? a.emit.1, a.emit.2)
  | step => (failure? a.step.1, a.step.2)
  | assemble => (failure? a.assemble.1, a.assemble.2)
  | moveTo position => (none, a.moveTo position)

/-- The operation closes a loop, on behalf of a bracket at a location. By then the position is
behind the bracket if it is one of the tokens. -/
inductive Closes (a : Assembly) : Operation → Location → (position : Nat) → Prop
  | closeLoop (location : Location) : Closes a (.closeLoop location) location a.position
  | emit {location : Location}
      (next : a.tokens[a.position]? = some ⟨.known .loopEnd, location⟩) :
      Closes a .emit location (a.position + 1)
  | step {location : Location}
      (next : a.tokens[a.position]? = some ⟨.known .loopEnd, location⟩) :
      Closes a .step location (a.position + 1)

theorem perform_step (a : Assembly) :
    Operation.step.perform a = (failure? a.step.1, a.step.2) := rfl

theorem perform_assemble (a : Assembly) :
    Operation.assemble.perform a = (failure? a.assemble.1, a.assemble.2) := rfl

end Operation

def serve (a : Assembly) (operations : List Operation) : Assembly :=
  operations.foldl (fun a operation => (operation.perform a).2) a

variable {a b : Assembly} {location : Location} {i : Instruction} {operation : Operation}

theorem nextToken_snd (a : Assembly) : ∃ position, a.nextToken.2 = a.moveTo position := by
  unfold nextToken
  split
  · exact ⟨_, rfl⟩
  · exact ⟨a.position, rfl⟩

theorem emit_of_closing (next : a.tokens[a.position]? = some ⟨.known .loopEnd, location⟩) :
    a.emit = (((a.moveTo (a.position + 1)).closeLoop location).1.map fun operand =>
        some (.ofSymbol .loopEnd operand), ((a.moveTo (a.position + 1)).closeLoop location).2) := by
  simp only [emit, nextToken, next, moveTo]
  rcases ({ a with position := a.position + 1 } : Assembly).closeLoop location with
    ⟨_ | _, _⟩ <;> rfl

theorem emit_of_not_closing
    (other : ∀ location, a.tokens[a.position]? ≠ some ⟨.known .loopEnd, location⟩) :
    (∃ position, a.emit.2 = a.moveTo position ∨
        ∃ location, a.emit.2 = ((a.moveTo position).openLoop location).2) ∧
      ∀ e, a.emit.1 = .error e →
        (∀ location, e ≠ .unexpectedClosing location) ∧ ∀ index, e ≠ .missingInstruction index := by
  cases next : a.tokens[a.position]? with
  | none =>
    simp only [emit, nextToken, next]
    cases a.openLoops with
    | nil => exact ⟨⟨a.position, .inl rfl⟩, by simp⟩
    | cons loop outer => exact ⟨⟨a.position, .inl rfl⟩, by simp⟩
  | some token =>
    obtain ⟨terminal, location⟩ := token
    simp only [emit, nextToken, next]
    rcases terminal with symbol | name
    · cases symbol with
      | loopEnd => exact absurd next (other location)
      | loopStart => exact ⟨⟨a.position + 1, .inr ⟨location, rfl⟩⟩, by simp⟩
      | _ => exact ⟨⟨_, .inl rfl⟩, by simp⟩
    · exact ⟨⟨_, .inl rfl⟩, by simp⟩

theorem step_eq_emit (a : Assembly) : a.step.1 = a.emit.1 ∧
    (a.step.2 = a.emit.2 ∨ ∃ i, a.emit.1 = .ok (some i) ∧ a.step.2 = a.emit.2.append i) := by
  unfold step
  rcases a.emit with ⟨e | _ | i, b⟩
  · exact ⟨rfl, .inl rfl⟩
  · exact ⟨rfl, .inl rfl⟩
  · exact ⟨rfl, .inr ⟨i, rfl, rfl⟩⟩

/-- The count is that of the program. The indices of the open loops, innermost first, do not grow,
and none is beyond the count. -/
structure Tidy (a : Assembly) : Prop where
  count : a.count = a.program.size
  nested : (a.openLoops.map OpenLoop.index).Pairwise (· ≥ ·)
  within : ∀ loop ∈ a.openLoops, loop.index ≤ a.count

theorem Tidy.moveTo (tidy : a.Tidy) (position : Nat) : (a.moveTo position).Tidy :=
  ⟨tidy.count, tidy.nested, tidy.within⟩

theorem Tidy.openLoop (tidy : a.Tidy) (location : Location) : (a.openLoop location).2.Tidy where
  count := tidy.count
  nested := List.pairwise_cons.2 ⟨List.forall_mem_map.2 tidy.within, tidy.nested⟩
  within := List.forall_mem_cons.2 ⟨Nat.le_refl _, tidy.within⟩

theorem Tidy.append (tidy : a.Tidy) (i : Instruction) : (a.append i).Tidy where
  count := by simp [Assembly.append, tidy.count]
  nested := tidy.nested
  within loop member := Nat.le_succ_of_le (tidy.within loop member)

theorem Tidy.closeLoop (tidy : a.Tidy) (location : Location) : (a.closeLoop location).2.Tidy := by
  unfold Assembly.closeLoop
  cases loops : a.openLoops with
  | nil => exact tidy
  | cons loop outer =>
    have nested := tidy.nested
    have within := tidy.within
    rw [loops] at nested within
    have nested : (outer.map OpenLoop.index).Pairwise (· ≥ ·) := (List.pairwise_cons.1 nested).2
    have within : ∀ loop ∈ outer, loop.index ≤ a.count := (List.forall_mem_cons.1 within).2
    dsimp only
    split
    · exact ⟨by simp [tidy.count], nested, within⟩
    · exact ⟨tidy.count, nested, within⟩

theorem Tidy.emit (tidy : a.Tidy) : a.emit.2.Tidy := by
  by_cases closing : ∃ location, a.tokens[a.position]? = some ⟨.known .loopEnd, location⟩
  · obtain ⟨location, next⟩ := closing
    rw [emit_of_closing next]
    exact (tidy.moveTo _).closeLoop location
  · obtain ⟨⟨position, same | ⟨location, same⟩⟩, -⟩ := emit_of_not_closing (not_exists.1 closing)
    · rw [same]
      exact tidy.moveTo position
    · rw [same]
      exact (tidy.moveTo position).openLoop location

theorem Tidy.step (tidy : a.Tidy) : a.step.2.Tidy := by
  rcases a.step_eq_emit with ⟨-, same | ⟨i, -, same⟩⟩
  · rw [same]
    exact tidy.emit
  · rw [same]
    exact tidy.emit.append i

theorem serve_cons (a : Assembly) (operation : Operation) (operations : List Operation) :
    a.serve (operation :: operations) = (operation.perform a).2.serve operations := rfl

theorem serve_append (a : Assembly) (first second : List Operation) :
    a.serve (first ++ second) = (a.serve first).serve second := List.foldl_append

/-- How many steps of a whole assembly go well and add an instruction. -/
def rounds (a : Assembly) : Nat :=
  match _h : a.step with
  | (.ok (some _), b) => b.rounds + 1
  | _ => 0
termination_by a.tokens.size - a.position
decreasing_by
  have := step_progress _h
  rw [this.2.2]
  omega

theorem rounds_of_step (stepped : a.step = (.ok (some i), b)) : a.rounds = b.rounds + 1 := by
  rw [rounds]
  split <;> simp_all

theorem rounds_of_stop (stopped : ∀ i b, a.step ≠ (.ok (some i), b)) : a.rounds = 0 := by
  rw [rounds]
  split <;> simp_all

theorem serve_rounds (stepped : a.step = (.ok (some i), b)) (done : Nat) :
    a.serve (List.replicate (done + 1) .step) = b.serve (List.replicate done .step) := by
  rw [List.replicate_succ, serve_cons, Operation.perform_step, stepped]

/-- A whole assembly ends as the first step does that adds nothing. -/
theorem perform_assemble_eq_step (a : Assembly) : Operation.assemble.perform a =
    Operation.step.perform (a.serve (List.replicate a.rounds .step)) := by
  fun_induction assemble a with
  | case1 a i b stepped ih =>
    rw [rounds_of_step stepped, serve_rounds stepped, ← ih, Operation.perform_assemble,
      Operation.perform_assemble, assemble_of_step stepped]
  | case2 a b stepped =>
    rw [rounds_of_stop (by simp [stepped]), Operation.perform_assemble, assemble_of_end stepped]
    simp [serve, Operation.perform_step, stepped, failure?]
  | case3 a e b stepped =>
    rw [rounds_of_stop (by simp [stepped]), Operation.perform_assemble, assemble_of_error stepped]
    simp [serve, Operation.perform_step, stepped, failure?]

/-- The single operations that operations come to, with the steps of whole assemblies. -/
def singles (a : Assembly) : List Operation → List Operation
  | [] => []
  | operation :: later =>
    (if operation = .assemble then List.replicate (a.rounds + 1) .step else [operation]) ++
      singles (operation.perform a).2 later

theorem serve_singles (a : Assembly) (operations : List Operation) :
    a.serve (a.singles operations) = a.serve operations := by
  induction operations generalizing a with
  | nil => rfl
  | cons operation later ih =>
    rw [singles, serve_append, serve_cons]
    split
    · next whole =>
      rw [List.replicate_succ', serve_append, serve_cons, ← perform_assemble_eq_step, whole]
      exact ih _
    · exact ih _

theorem ne_assemble_of_mem_singles {operations : List Operation}
    (member : operation ∈ a.singles operations) : operation ≠ .assemble := by
  induction operations generalizing a with
  | nil => cases member
  | cons first later ih =>
    rw [singles, List.mem_append] at member
    rcases member with here | later
    · split at here
      · simp [List.eq_of_mem_replicate here]
      · next single => exact List.mem_singleton.1 here ▸ single
    · exact ih later

theorem Tidy.perform (tidy : a.Tidy) (single : operation ≠ .assemble) :
    (operation.perform a).2.Tidy := by
  cases operation with
  | nextToken =>
    obtain ⟨position, same⟩ := a.nextToken_snd
    exact same ▸ tidy.moveTo position
  | peek => exact tidy
  | countRun terminal => exact tidy.moveTo _
  | openLoop location => exact tidy.openLoop location
  | closeLoop location => exact tidy.closeLoop location
  | emit => exact tidy.emit
  | step => exact tidy.step
  | assemble => exact absurd rfl single
  | moveTo position => exact tidy.moveTo position

/-- Single operations, whatever errors they end in. -/
theorem Tidy.serve_single (tidy : a.Tidy) {single : List Operation}
    (all : ∀ operation ∈ single, operation ≠ .assemble) : (a.serve single).Tidy := by
  induction single generalizing a with
  | nil => exact tidy
  | cons operation single ih =>
    obtain ⟨first, all⟩ := List.forall_mem_cons.1 all
    exact ih (tidy.perform first) all

theorem Tidy.serve (tidy : a.Tidy) (operations : List Operation) :
    (a.serve operations).Tidy := by
  rw [← serve_singles]
  exact tidy.serve_single fun _ member => ne_assemble_of_mem_singles member

/-- How closing a loop ends, for a bracket at a location and with the position that it is done at.
-/
structure Closing (a : Assembly) (location : Location) (position : Nat)
    (outcome : Option Error × Assembly) : Prop where
  unexpected : outcome.1 = some (.unexpectedClosing location) ↔ a.openLoops = []
  unchanged : a.openLoops = [] → outcome.2 = { a with position }
  missing : (∃ index, outcome.1 = some (.missingInstruction index)) ↔
    ∃ loop outer, a.openLoops = loop :: outer ∧ loop.index = a.program.size
  popped : ∀ loop outer, a.openLoops = loop :: outer → loop.index = a.program.size →
    outcome.2 = { a with openLoops := outer, position }
  completed : ∀ loop outer, a.openLoops = loop :: outer → loop.index ≠ a.program.size →
    outcome.1 = none ∧ outcome.2.openLoops = outer ∧ loop.index < a.program.size ∧ ∃ added,
      outcome.2.program =
        (a.program.modify loop.index fun i => { i with operand := a.count }) ++ added

theorem Tidy.closeLoop_cases (tidy : a.Tidy) (location : Location) :
    (a.openLoops = [] ∧ a.closeLoop location = (.error (.unexpectedClosing location), a)) ∨
    ∃ loop outer, a.openLoops = loop :: outer ∧
      ((loop.index = a.program.size ∧ a.closeLoop location =
          (.error (.missingInstruction loop.index), { a with openLoops := outer })) ∨
        (loop.index < a.program.size ∧ a.closeLoop location = (.ok loop.index,
          { a with
            openLoops := outer
            program := a.program.modify loop.index fun i => { i with operand := a.count } }))) := by
  unfold Assembly.closeLoop
  cases loops : a.openLoops with
  | nil => exact .inl ⟨rfl, rfl⟩
  | cons loop outer =>
    have within := tidy.within loop (by simp [loops])
    rw [tidy.count] at within
    refine .inr ⟨loop, outer, rfl, ?_⟩
    dsimp only
    by_cases inside : loop.index < a.program.size
    · exact .inr ⟨inside, if_pos inside⟩
    · exact .inl ⟨by omega, if_neg inside⟩

theorem Tidy.closing_closeLoop (tidy : a.Tidy) (location : Location) :
    Closing a location a.position
      (failure? (a.closeLoop location).1, (a.closeLoop location).2) := by
  rcases tidy.closeLoop_cases location with
    ⟨none, closed⟩ | ⟨loop, outer, loops, ⟨beyond, closed⟩ | ⟨inside, closed⟩⟩
  · rw [closed]
    refine ⟨?_, fun _ => rfl, ?_, ?_, ?_⟩ <;> simp [failure?, none]
  · rw [closed]
    constructor <;> simp [failure?, loops, beyond]
  · rw [closed]
    constructor <;> simp [failure?, loops, inside, Nat.ne_of_lt inside]

theorem Closing.of_moveTo {further position : Nat} {outcome : Option Error × Assembly}
    (closing : Closing (a.moveTo further) location position outcome) :
    Closing a location position outcome where
  unexpected := closing.unexpected
  unchanged := closing.unchanged
  missing := closing.missing
  popped := closing.popped
  completed := closing.completed

theorem Closing.append {position : Nat} (closing : Closing a location position (none, b))
    (i : Instruction) : Closing a location position (none, b.append i) where
  unexpected := closing.unexpected
  unchanged nothing := by cases closing.unexpected.2 nothing
  missing := closing.missing
  popped loop outer loops beyond := by
    obtain ⟨index, impossible⟩ := closing.missing.2 ⟨loop, outer, loops, beyond⟩
    cases impossible
  completed loop outer loops inside := by
    obtain ⟨-, left, within, added, stored⟩ := closing.completed loop outer loops inside
    refine ⟨rfl, left, within, added.push i, ?_⟩
    rw [← Array.push_append, ← stored]
    rfl

theorem failure?_map {α β : Type} (f : α → β) (result : Except Error α) :
    failure? (result.map f) = failure? result := by
  cases result <;> rfl

theorem Tidy.closing (tidy : a.Tidy) {position : Nat}
    (closes : operation.Closes a location position) :
    Closing a location position (operation.perform a) := by
  have emission (next : a.tokens[a.position]? = some ⟨.known .loopEnd, location⟩) :
      Closing a location (a.position + 1) (failure? a.emit.1, a.emit.2) := by
    rw [emit_of_closing next, failure?_map]
    exact ((tidy.moveTo (a.position + 1)).closing_closeLoop location).of_moveTo
  cases closes with
  | closeLoop => exact tidy.closing_closeLoop location
  | emit next => exact emission next
  | step next =>
    have emitted := emission next
    obtain ⟨first, same | ⟨i, instruction, added⟩⟩ := a.step_eq_emit
    · rw [Operation.perform_step, first, same]
      exact emitted
    · rw [instruction] at emitted
      rw [Operation.perform_step, first, instruction, added]
      exact emitted.append i

end TapeVM.Assembly
