import TapeVM.Proofs.Interruption
import TapeVM.Proofs.Lines

/-! Observation: the trace and the statistics of a run beside what its machine does when nobody
watches. A trace sits inside each step, and it can itself fail, at an instruction without a name or
at a number that cannot be written; there a traced run stops, just before that step. -/
namespace TapeVM

/-- What a machine does by itself: the states just before the instructions it dispatches, the
oldest first, the state it is left in, and how it ended, if it did. -/
structure Course where
  dispatched : List Machine := []
  last : Machine
  ending : Option Run.Ending := none

def Course.after (course : Course) (m : Machine) : Course :=
  { course with dispatched := m :: course.dispatched }

namespace Machine

/-- At most `count` instructions from a state on. -/
def course : (count : Nat) → Machine → Course
  | 0, m => { last := m }
  | count + 1, m =>
    match m.next? with
    | none => { last := m, ending := some .finished }
    | some i =>
      match m.dispatch i with
      | (last, some fault) => { dispatched := [m], last, ending := some (.faulted fault) }
      | (next, none) => (next.course count).after m

/-- The lines that show some states, numbered from a step on. -/
def traceLines (step : Nat) (states : List Machine) : List (Except Fault String) :=
  (states.zipIdx step).map fun (state, number) => state.traceLine number

variable {m : Machine} {i : Instruction}

@[simp] theorem traceLines_nil (step : Nat) : traceLines step [] = [] := rfl

theorem traceLines_cons (step : Nat) (m : Machine) (states : List Machine) :
    traceLines step (m :: states) = m.traceLine step :: traceLines (step + 1) states := by
  simp [traceLines, List.zipIdx_cons]

theorem line_of_traceLines {trace : List String} {step : Nat} {states : List Machine}
    (lines : trace.map .ok = traceLines step states) : ∀ line ∈ trace, Text.Line line := by
  intro line member
  have shown : .ok line ∈ traceLines step states := lines ▸ List.mem_map_of_mem member
  obtain ⟨⟨state, number⟩, -, line_eq⟩ := List.mem_map.1 shown
  exact line_traceLine line_eq

/-- An operation that leaves the program and its host alone and is one that the machine has. -/
structure Tame (m : Machine) (outcome : Outcome) : Prop where
  program : outcome.1.program = m.program
  host : outcome.1.host = m.host
  fault : ∀ code, outcome.2 ≠ some (.unimplemented code)

theorem tame_onCell (m : Machine) (change : UInt8 → UInt8) : m.Tame (m.onCell change) := by
  rw [onCell]
  split
  · exact ⟨rfl, rfl, by simp⟩
  · exact ⟨rfl, rfl, by simp⟩

theorem tame_shiftRight (m : Machine) (amount : Int) : m.Tame (m.shiftRight amount) := by
  rw [shiftRight]
  split
  · exact ⟨rfl, rfl, by simp⟩
  · exact ⟨rfl, rfl, by simp⟩

theorem tame_jumpIf (m : Machine) (condition : UInt8 → Bool) (target : Int) :
    m.Tame (m.jumpIf condition target) := by
  rw [jumpIf]
  cases m.cell? with
  | none => exact ⟨rfl, rfl, by simp⟩
  | some value =>
    by_cases taken : condition value <;> exact ⟨by simp [taken], by simp [taken], by simp⟩

theorem tame_output (m : Machine) (amount : Int) : m.Tame (m.output amount) := by
  rw [output]
  cases m.cell? <;> cases m.host.shortage? amount <;> exact ⟨rfl, rfl, by simp⟩

theorem tame_input (m : Machine) : m.Tame m.input := by
  cases given : m.console.flush.read.1.byte? with
  | none =>
    rw [input_of_none given]
    exact ⟨rfl, rfl, by simp⟩
  | some byte =>
    rw [input_of_byte given]
    have stored := tame_onCell { m with console := m.console.flush.read.2 } fun _ => byte
    exact ⟨stored.program, stored.host, stored.fault⟩

theorem execute_of_unassigned {code : Int} (unknown : i.op = .unassigned code) :
    m.execute i = (m, some (.unimplemented code)) := by
  rw [execute, unknown]

theorem tame_execute (m : Machine) (named : i.call?.isSome) : m.Tame (m.execute i) := by
  obtain ⟨op, operand⟩ := i
  cases op with
  | add => exact m.tame_onCell (· + UInt8.ofInt operand)
  | sub => exact m.tame_onCell (· - UInt8.ofInt operand)
  | shiftLeft => exact ⟨rfl, rfl, by simp [execute, shiftLeft]⟩
  | shiftRight => exact m.tame_shiftRight operand
  | jumpIfZero => exact m.tame_jumpIf (· == 0) operand
  | jumpIfNonZero => exact m.tame_jumpIf (· != 0) operand
  | input => exact m.tame_input
  | output => exact m.tame_output operand
  | unassigned code => simp [Instruction.call?, Opcode.name?] at named

theorem tame_dispatch (m : Machine) (named : i.call?.isSome) : m.Tame (m.dispatch i) := by
  have executed := m.tame_execute named
  rw [dispatch_eq]
  split
  · exact executed
  · exact ⟨executed.program, executed.host, by simp⟩

theorem dispatch_of_unassigned {code : Int} (unknown : i.op = .unassigned code) :
    m.dispatch i = (m, some (.unimplemented code)) := by
  rw [dispatch_eq, execute_of_unassigned unknown]
  rfl

theorem dispatch_unimplemented_iff {code : Int} :
    (m.dispatch i).2 = some (.unimplemented code) ↔ i.op = .unassigned code := by
  constructor
  · intro raised
    cases named : i.call? with
    | none =>
      have unknown := Instruction.call?_eq_none_iff.1 named
      rw [dispatch_of_unassigned unknown] at raised
      obtain same : i.op.code = code := by simpa using raised
      exact same ▸ unknown
    | some => exact ((m.tame_dispatch (by simp [named])).fault code raised).elim
  · intro unknown
    rw [dispatch_of_unassigned unknown]

theorem dispatch_keeps (m : Machine) (i : Instruction) :
    (m.dispatch i).1.program = m.program ∧ (m.dispatch i).1.host = m.host := by
  cases named : i.call? with
  | none =>
    rw [dispatch_of_unassigned (Instruction.call?_eq_none_iff.1 named)]
    exact ⟨rfl, rfl⟩
  | some =>
    have tame := m.tame_dispatch (i := i) (by simp [named])
    exact ⟨tame.program, tame.host⟩

theorem course_of_outside (outside : m.next? = none) (count : Nat) :
    m.course (count + 1) = { last := m, ending := some .finished } := by
  simp [course, outside]

theorem course_of_fault (found : m.next? = some i) {last : Machine} {fault : Fault}
    (raised : m.dispatch i = (last, some fault)) (count : Nat) :
    m.course (count + 1) = ⟨[m], last, some (.faulted fault)⟩ := by
  simp [course, found, raised]

theorem course_of_dispatch (found : m.next? = some i) {next : Machine}
    (dispatched : m.dispatch i = (next, none)) (count : Nat) :
    m.course (count + 1) = (next.course count).after m := by
  simp [course, found, dispatched]

theorem of_mem_course {state : Machine} {count : Nat}
    (member : state ∈ (m.course count).dispatched) :
    state.program = m.program ∧ state.host = m.host ∧ ∃ i ∈ m.program, state.next? = some i := by
  induction count generalizing m with
  | zero => cases member
  | succ count ih =>
    cases found : m.next? with
    | none =>
      rw [course_of_outside found] at member
      cases member
    | some i =>
      have here : m.program = m.program ∧ m.host = m.host ∧ ∃ i ∈ m.program, m.next? = some i :=
        ⟨rfl, rfl, i, mem_of_next? found, found⟩
      rcases dispatched : m.dispatch i with ⟨next, _ | fault⟩
      · rw [course_of_dispatch found dispatched, Course.after, List.mem_cons] at member
        rcases member with rfl | member
        · exact here
        · have kept := m.dispatch_keeps i
          rw [dispatched] at kept
          have later := ih member
          rwa [kept.1, kept.2] at later
      · rw [course_of_fault found dispatched, List.mem_singleton] at member
        rwa [member]

theorem course_of_split {known more : List Machine} {state : Machine} {count : Nat}
    (split : (m.course count).dispatched = known ++ state :: more) :
    known.length < count ∧ m.course known.length = { dispatched := known, last := state } := by
  induction count generalizing m known with
  | zero => simp [course] at split
  | succ count ih =>
    cases found : m.next? with
    | none => simp [course_of_outside found] at split
    | some i =>
      rcases dispatched : m.dispatch i with ⟨next, _ | fault⟩
      · rw [course_of_dispatch found dispatched] at split
        cases known with
        | nil =>
          obtain ⟨rfl, -⟩ := List.cons.inj split
          exact ⟨Nat.succ_pos count, rfl⟩
        | cons first known =>
          obtain ⟨rfl, later⟩ := List.cons.inj split
          obtain ⟨less, shorter⟩ := ih later
          refine ⟨Nat.succ_lt_succ less, ?_⟩
          rw [List.length_cons, course_of_dispatch found dispatched, shorter]
          rfl
      · rw [course_of_fault found dispatched] at split
        cases known with
        | nil =>
          obtain ⟨rfl, -⟩ := List.cons.inj split
          exact ⟨Nat.succ_pos count, rfl⟩
        | cons first known => simp at split

/-- All of some states, numbered from a step on, stand at instructions that can be shown. -/
def Shown (step : Nat) (states : List Machine) : Prop :=
  ∀ entry ∈ states.zipIdx step, ∃ i, entry.1.next? = some i ∧ entry.1.Reveals entry.2 i

theorem shown_nil (step : Nat) : Shown step [] := fun _ member => by cases member

theorem shown_cons {step : Nat} {states : List Machine} :
    Shown step (m :: states) ↔
      (∃ i, m.next? = some i ∧ m.Reveals step i) ∧ Shown (step + 1) states := by
  simp [Shown, List.zipIdx_cons]

end Machine

namespace Run

variable {run mid final : Run} {i : Instruction}

/-- A run has dispatched some instructions, counted each of them and, if it is traced, written one
line for each. -/
structure Recorded (run : Run) (states : List Machine) (last : Machine) (final : Run) : Prop where
  machine : final.machine = last
  traced : final.traced = run.traced
  steps : final.steps = run.steps + states.length
  trace : final.trace.toList.map Except.ok = run.trace.toList.map Except.ok ++
    if run.traced then Machine.traceLines run.steps states else []

theorem Recorded.refl (run : Run) : run.Recorded [] run.machine run :=
  ⟨rfl, rfl, rfl, by simp⟩

theorem Recorded.cons {first next last : Machine} {states : List Machine}
    (one : run.Recorded [first] next mid) (more : mid.Recorded states last final) :
    run.Recorded (first :: states) last final := by
  refine ⟨more.machine, more.traced.trans one.traced, ?_, ?_⟩
  · rw [more.steps, one.steps, List.length_singleton, List.length_cons]
    omega
  · rw [more.trace, one.trace, one.traced, one.steps]
    cases run.traced <;> simp [Machine.traceLines_cons]

theorem recorded_next (found : run.machine.next? = some i)
    (reveals : run.traced = true → run.machine.Reveals run.steps i) :
    run.Recorded [run.machine] (run.machine.dispatch i).1 run.next.1 ∧
      run.next.2 = (run.machine.dispatch i).2.map .faulted := by
  by_cases traced : run.traced = true
  · rcases Machine.traceLine_of_next? found run.steps with ⟨line, -, shown⟩ | ⟨fault, hides, -⟩
    · have step : run.next = { run with trace := run.trace.push line }.dispatch i := by
        simp [next, found, traced, shown]
      rw [step, dispatch_eq]
      exact ⟨⟨rfl, rfl, rfl, by simp [traced, Machine.traceLines_cons, shown]⟩, rfl⟩
    · exact ((reveals traced).not_hides hides).elim
  · have step : run.next = run.dispatch i := by simp only [next, found, if_neg traced]
    rw [step, dispatch_eq]
    exact ⟨⟨rfl, rfl, rfl, by simp [traced]⟩, rfl⟩

/-- A run that can show whatever it comes to keeps to the course of its machine. -/
theorem recorded_follow {count : Nat} (shown : run.traced = true →
      Machine.Shown run.steps (run.machine.course count).dispatched) :
    run.Recorded (run.machine.course count).dispatched (run.machine.course count).last
        (run.follow count).1 ∧
      (run.follow count).2 = (run.machine.course count).ending := by
  -- The run and the course take the same step, and go on from machines that are the same.
  induction count generalizing run with
  | zero => exact ⟨.refl run, rfl⟩
  | succ count ih =>
    cases found : run.machine.next? with
    | none =>
      rw [follow_succ_of_ending count (next_of_outside found), Machine.course_of_outside found]
      exact ⟨.refl run, rfl⟩
    | some i =>
      have here {states : List Machine} (traced : run.traced = true)
          (shown : Machine.Shown run.steps (run.machine :: states)) :
          run.machine.Reveals run.steps i := by
        obtain ⟨⟨j, found', reveals⟩, -⟩ := Machine.shown_cons.1 shown
        rwa [Option.some.inj (found.symm.trans found')]
      rcases dispatched : run.machine.dispatch i with ⟨after, _ | fault⟩
      · rw [Machine.course_of_dispatch found dispatched] at shown ⊢
        obtain ⟨one, ended⟩ := recorded_next found fun traced => here traced (shown traced)
        rw [dispatched] at one ended
        rw [follow_succ_of_next count (Prod.ext rfl ended)]
        obtain ⟨more, same⟩ := @ih run.next.1 fun traced => by
          rw [one.steps, one.machine]
          exact (Machine.shown_cons.1 (shown (one.traced ▸ traced))).2
        rw [one.machine] at more same
        exact ⟨one.cons more, same⟩
      · rw [Machine.course_of_fault found dispatched] at shown ⊢
        obtain ⟨one, ended⟩ := recorded_next found fun traced => here traced (shown traced)
        rw [dispatched] at one ended
        rw [follow_succ_of_ending count (Prod.ext rfl ended)]
        exact ⟨one, rfl⟩

/-- A traced run stops before the first instruction that it cannot show, which it does not count. -/
theorem recorded_follow_hidden {count : Nat} (traced : run.traced = true)
    (hidden : ¬ Machine.Shown run.steps (run.machine.course count).dispatched) :
    ∃ known state more i fault, (run.machine.course count).dispatched = known ++ state :: more ∧
      Machine.Shown run.steps known ∧ state.next? = some i ∧
      state.Hides (run.steps + known.length : Nat) i fault ∧
      run.Recorded known state (run.follow count).1 ∧
      (run.follow count).2 = some (.faulted fault) := by
  induction count generalizing run with
  | zero => exact (hidden (Machine.shown_nil _)).elim
  | succ count ih =>
    cases found : run.machine.next? with
    | none =>
      rw [Machine.course_of_outside found] at hidden
      exact (hidden (Machine.shown_nil _)).elim
    | some i =>
      rcases Machine.traceLine_of_next? found run.steps with ⟨-, reveals, -⟩ | ⟨fault, hides, -⟩
      · obtain ⟨one, ended⟩ := recorded_next found fun _ => reveals
        have first : ∃ i, run.machine.next? = some i ∧ run.machine.Reveals run.steps i :=
          ⟨i, found, reveals⟩
        rcases dispatched : run.machine.dispatch i with ⟨after, _ | fault⟩
        · rw [dispatched] at one ended
          rw [Machine.course_of_dispatch found dispatched] at hidden ⊢
          rw [follow_succ_of_next count (Prod.ext rfl ended)]
          obtain ⟨known, state, more, j, fault, split, shown, stands, hides, kept, fails⟩ :=
            @ih run.next.1 (one.traced.trans traced) fun shown => by
              rw [one.steps, one.machine] at shown
              exact hidden (Machine.shown_cons.2 ⟨first, shown⟩)
          rw [one.machine] at split
          rw [one.steps] at shown hides
          refine ⟨run.machine :: known, state, more, j, fault, congrArg (run.machine :: ·) split,
            Machine.shown_cons.2 ⟨first, shown⟩, stands, ?_, one.cons kept, fails⟩
          rwa [List.length_cons, Nat.add_comm known.length, ← Nat.add_assoc]
        · rw [Machine.course_of_fault found dispatched] at hidden
          exact (hidden (Machine.shown_cons.2 ⟨first, Machine.shown_nil _⟩)).elim
      · rw [follow_succ_of_ending count (next_of_hides found traced hides)]
        rcases dispatched : run.machine.dispatch i with ⟨after, _ | raised⟩
        · rw [Machine.course_of_dispatch found dispatched]
          exact ⟨[], run.machine, _, i, fault, rfl, Machine.shown_nil _, found, hides, .refl run,
            rfl⟩
        · rw [Machine.course_of_fault found dispatched]
          exact ⟨[], run.machine, [], i, fault, rfl, Machine.shown_nil _, found, hides, .refl run,
            rfl⟩

/-- The states just before the instructions that a run dispatches within some steps. -/
def states (run : Run) (count : Nat) : List Machine :=
  (run.machine.course count).dispatched.take ((run.follow count).1.steps - run.steps)

/-- Traced or not, a run dispatches what its machine does within as many steps or fewer, and it ends
in the same way or at an instruction that cannot be shown. -/
theorem follow_course (run : Run) (count : Nat) :
    ∃ taken ≤ count, (run.machine.course taken).dispatched = run.states count ∧
      run.Recorded (run.states count) (run.machine.course taken).last (run.follow count).1 ∧
      ((run.follow count).2 = (run.machine.course taken).ending ∨
        (run.machine.course taken).ending = none ∧ ∃ i fault, run.traced = true ∧
          (run.machine.course taken).last.Hides (run.follow count).1.steps i fault ∧
          (run.follow count).2 = some (.faulted fault)) := by
  have taken {known : List Machine} {last : Machine}
      (recorded : run.Recorded known last (run.follow count).1)
      (first : known <+: (run.machine.course count).dispatched) : run.states count = known := by
    rw [states, recorded.steps, Nat.add_sub_cancel_left, ← List.prefix_iff_eq_take.1 first]
  by_cases stops : run.traced = true ∧
      ¬ Machine.Shown run.steps (run.machine.course count).dispatched
  · obtain ⟨traced, hidden⟩ := stops
    obtain ⟨known, state, more, i, fault, split, -, -, hides, recorded, fails⟩ :=
      recorded_follow_hidden traced hidden
    obtain ⟨less, shorter⟩ := Machine.course_of_split split
    rw [← recorded.steps] at hides
    refine ⟨known.length, Nat.le_of_lt less, ?_⟩
    rw [shorter, taken recorded ⟨_, split.symm⟩]
    exact ⟨rfl, recorded, .inr ⟨rfl, i, fault, traced, hides, fails⟩⟩
  · obtain ⟨recorded, ended⟩ := @recorded_follow run count fun traced =>
      Classical.byContradiction fun hidden => stops ⟨traced, hidden⟩
    refine ⟨count, Nat.le_refl count, ?_⟩
    rw [taken recorded (List.prefix_refl _)]
    exact ⟨rfl, recorded, .inl ended⟩

end Run

end TapeVM
