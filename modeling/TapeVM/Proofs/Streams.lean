import TapeVM.Proofs.Lookahead

/-! Streams: the calls that a run makes on its input and its output. Which calls an instruction
makes can be told from the state just before it, whether or not it fails. So the record of a run is
that of its instructions in order, and behind it the one flush that ends every run. -/
namespace TapeVM

namespace StreamCall

/-- Calls among which there is a flush right in front of each read and nowhere else. -/
inductive Orderly : List StreamCall → Prop where
  | done : Orderly []
  | write {calls : List StreamCall} (content : List UInt8) (rest : Orderly calls) :
      Orderly (.write content :: calls)
  | read {calls : List StreamCall} (rest : Orderly calls) : Orderly (.flush :: .read :: calls)

def written? : StreamCall → Option (List UInt8)
  | write content => some content
  | flush | read => none

variable {calls : List StreamCall}

theorem Orderly.count_flush (orderly : Orderly calls) :
    calls.count .flush = calls.count .read := by
  induction orderly with
  | done => rfl
  | write _ _ ih => simpa using ih
  | read _ ih => simpa using ih

theorem Orderly.flushed (orderly : Orderly calls) {earlier later : List StreamCall}
    (cut : calls = earlier ++ .read :: later) : ∃ front, earlier = front ++ [.flush] := by
  induction orderly generalizing earlier with
  | done => simp at cut
  | write content _ ih =>
    cases earlier with
    | nil => cases cut
    | cons call earlier =>
      obtain ⟨front, rfl⟩ := ih (List.cons.inj cut).2
      exact ⟨call :: front, rfl⟩
  | read _ ih =>
    -- The read is the one behind this flush, or a later one.
    rcases earlier with _ | ⟨first, _ | ⟨second, earlier⟩⟩
    · cases cut
    · obtain ⟨rfl, -⟩ := List.cons.inj cut
      exact ⟨[], rfl⟩
    · obtain ⟨front, rfl⟩ := ih (List.cons.inj (List.cons.inj cut).2).2
      exact ⟨first :: second :: front, rfl⟩

end StreamCall

open StreamCall (Orderly)

namespace Console

theorem calls_read (console : Console) : console.read.2.calls = console.calls.push .read := by
  unfold read
  split <;> rfl

theorem delivered_of_flushed {console : Console} {front : List StreamCall}
    (last : console.calls.toList = front ++ [.flush]) : console.delivered = console.output := by
  simp only [delivered, last]
  simp [output, last]

end Console

namespace Machine

variable {m state : Machine} {i : Instruction} {host : Host} {p : Program} {cells : Nat}

/-- The calls that an instruction makes. A cell is written as often as the operand says, in one
call, also if that is not at all, but not if that is more than there can be. -/
def callsOf (m : Machine) (i : Instruction) : List StreamCall :=
  match i.op with
  | .output =>
    match m.cell?, m.host.shortage? i.operand with
    | some value, none => [.write (List.replicate i.operand.toNat value)]
    | _, _ => []
  | .input => [.flush, .read]
  | .add | .sub | .shiftLeft | .shiftRight | .jumpIfZero | .jumpIfNonZero | .unassigned _ => []

def calls (m : Machine) : List StreamCall := m.next?.elim [] m.callsOf

/-- The next instruction is to write no more than there can be. -/
def prints (m : Machine) : Bool :=
  m.next?.any fun i => i.op = .output && (m.host.shortage? i.operand).isNone

/-- The next instruction writes the cell under the cursor, as often as its operand says. -/
def Prints (m : Machine) (content : List UInt8) : Prop :=
  ∃ amount value, m.next? = some ⟨.output, amount⟩ ∧ m.host.shortage? amount = none ∧
    m.cell? = some value ∧ content = List.replicate amount.toNat value

theorem calls_input (m : Machine) :
    m.input.1.console.calls.toList = m.console.calls.toList ++ [.flush, .read] := by
  have asked : m.console.flush.read.2.calls.toList = m.console.calls.toList ++ [.flush, .read] := by
    simp [Console.calls_read, Console.flush]
  cases given : m.console.flush.read.1.byte? with
  | some byte =>
    rw [input_of_byte given]
    have stored := (quiet_onCell fun _ => byte).console (m.withConsole m.console.flush.read.2)
    exact (congrArg (fun console => console.calls.toList) stored).trans asked
  | none =>
    rw [input_of_none given]
    exact asked

theorem calls_output (m : Machine) (amount : Int) :
    (m.output amount).1.console.calls.toList =
      m.console.calls.toList ++ m.callsOf ⟨.output, amount⟩ := by
  unfold output callsOf
  cases m.cell? <;> cases m.host.shortage? amount <;> simp [Console.write]

/-- An instruction makes its calls, on the tape and off it, and also if it fails. -/
theorem calls_execute (m : Machine) (i : Instruction) :
    (m.execute i).1.console.calls.toList = m.console.calls.toList ++ m.callsOf i := by
  have quiet {operation : Machine → Outcome} (quiet : Quiet operation) :
      (operation m).1.console.calls.toList = m.console.calls.toList ++ [] := by
    simp [quiet.console m]
  obtain ⟨op, operand⟩ := i
  cases op with
  | add => exact quiet (quiet_onCell (· + UInt8.ofInt operand))
  | sub => exact quiet (quiet_onCell (· - UInt8.ofInt operand))
  | shiftLeft => exact quiet (quiet_shiftLeft operand)
  | shiftRight => exact quiet (quiet_shiftRight operand)
  | jumpIfZero => exact quiet (quiet_jumpIf (· == 0) operand)
  | jumpIfNonZero => exact quiet (quiet_jumpIf (· != 0) operand)
  | input => exact m.calls_input
  | output => exact m.calls_output operand
  | unassigned => exact (List.append_nil _).symm

theorem calls_dispatch (found : m.next? = some i) :
    (m.dispatch i).1.console.calls.toList = m.console.calls.toList ++ m.calls := by
  have executed : (m.execute i).1.console.calls.toList = m.console.calls.toList ++ m.calls := by
    simpa [calls, found] using m.calls_execute i
  rw [dispatch_eq]
  split <;> exact executed

theorem calls_cases (inside : m.cursor < m.tape.size) :
    (∃ content, m.calls = [.write content] ∧ m.Prints content ∧ m.prints ∧ ¬ m.reads) ∨
      (m.calls = [.flush, .read] ∧ m.reads ∧ ¬ m.prints) ∨
      (m.calls = [] ∧ ¬ m.prints ∧ ¬ m.reads) := by
  have cell := cell?_of_lt inside
  cases found : m.next? with
  | none => simp [calls, prints, reads, found]
  | some i =>
    obtain ⟨op, operand⟩ := i
    cases op with
    | output =>
      cases room : m.host.shortage? operand with
      | none =>
        refine .inl ⟨List.replicate operand.toNat m.tape[m.cursor], ?_, ?_, ?_, ?_⟩
        · simp [calls, found, callsOf, cell, room]
        · exact ⟨operand, _, found, room, cell, rfl⟩
        · simp [prints, found, room]
        · simp [reads, found]
      | some cause => simp [calls, callsOf, prints, reads, found, room]
    | _ => simp [calls, callsOf, prints, reads, found]

theorem calls_course (m : Machine) (count : Nat) :
    (m.course count).last.console.calls.toList =
      m.console.calls.toList ++ (m.course count).dispatched.flatMap calls := by
  induction count generalizing m with
  | zero => exact (List.append_nil _).symm
  | succ count ih =>
    cases found : m.next? with
    | none => simp [course_of_outside found]
    | some i =>
      have made := calls_dispatch found
      rcases dispatched : m.dispatch i with ⟨next, _ | fault⟩
      · rw [course_of_dispatch found dispatched]
        calc (next.course count).last.console.calls.toList
            = next.console.calls.toList ++ (next.course count).dispatched.flatMap calls := ih next
          _ = m.console.calls.toList ++ m.calls ++ (next.course count).dispatched.flatMap calls := by
            rw [← made, dispatched]
          _ = m.console.calls.toList ++ (m :: (next.course count).dispatched).flatMap calls :=
            List.append_assoc _ _ _
      · rw [dispatched] at made
        simpa [course_of_fault found dispatched] using made

theorem Sound.of_mem_course (sound : m.Sound host p cells) (shifts : p.Forward) {count : Nat}
    (member : state ∈ (m.course count).dispatched) : state.Sound host p cells := by
  induction count generalizing m with
  | zero => cases member
  | succ count ih =>
    cases found : m.next? with
    | none =>
      rw [course_of_outside found] at member
      cases member
    | some i =>
      have safe := sound.dispatch (shifts i (sound.program ▸ mem_of_next? found))
      rcases dispatched : m.dispatch i with ⟨next, _ | fault⟩
      · rw [course_of_dispatch found dispatched] at member
        rw [dispatched] at safe
        rcases List.mem_cons.1 member with rfl | later
        · exact sound
        · exact ih safe.sound later
      · rw [course_of_fault found dispatched] at member
        rwa [List.mem_singleton.1 member]

/-- Calls in order, one write for each state that is about to write, and one read for each that is
about to read. -/
structure Accounts (states : List Machine) (calls : List StreamCall) : Prop where
  orderly : Orderly calls
  writes : List.Forall₂ Prints (states.filter prints) (calls.filterMap StreamCall.written?)
  reads : calls.count .read = readings states

theorem accounts_calls {states : List Machine}
    (inside : ∀ state ∈ states, state.cursor < state.tape.size) :
    Accounts states (states.flatMap calls) := by
  induction states with
  | nil => exact ⟨.done, .nil, rfl⟩
  | cons state states ih =>
    obtain ⟨orderly, writes, counted⟩ := ih fun later member =>
      inside later (List.mem_cons_of_mem _ member)
    rcases calls_cases (inside state List.mem_cons_self) with
      ⟨content, made, printed, prints, silent⟩ | ⟨made, reads, silent⟩ | ⟨made, silent, deaf⟩
    · refine ⟨?_, ?_, ?_⟩
      · simpa [made] using orderly.write content
      · simpa [made, prints, StreamCall.written?] using ⟨printed, writes⟩
      · simpa [made, readings_cons, silent] using counted
    · refine ⟨?_, ?_, ?_⟩
      · simpa [made] using orderly.read
      · simpa [made, silent, List.filterMap_cons, StreamCall.written?] using writes
      · simpa [made, readings_cons, reads] using counted
    · refine ⟨?_, ?_, ?_⟩
      · simpa [made] using orderly
      · simpa [made, silent] using writes
      · simpa [made, readings_cons, deaf] using counted

end Machine

/-- The calls of a run are those of the instructions it dispatched, in order, and one flush behind
them. Every read comes right behind a flush, so all that was ever written has been delivered when
the machine waits for input, and nothing else is flushed. For each instruction that prints there is
one write of the cell it found, as often as its operand says, and for each that reads there is one
read, even if it was that read that failed. An instruction that is to write more than there can be
makes no call. -/
theorem stream_calls_are_orderly {m : Machine} (shifts : m.program.Forward)
    (inside : m.cursor < m.tape.size) {verbosity : Int} {limit : Nat} {last : Run}
    {ending : Run.Ending} (completed : (m.start verbosity).complete limit = some (last, ending)) :
    let states := (m.start verbosity).states limit
    ∃ (taken : Nat) (made : List StreamCall),
      taken ≤ limit ∧ (m.course taken).dispatched = states ∧
      last.machine = (m.course taken).last.flush ∧ last.steps = states.length ∧
      last.machine.console.calls.toList = m.console.calls.toList ++ (made ++ [.flush]) ∧
      made = states.flatMap Machine.calls ∧ Orderly made ∧
      made.count .flush = made.count .read ∧
      (∀ earlier later, made = earlier ++ .read :: later →
        let waiting : Console := { calls := m.console.calls ++ earlier.toArray }
        (∃ front, earlier = front ++ [.flush]) ∧ waiting.delivered = waiting.output) ∧
      List.Forall₂ Machine.Prints (states.filter Machine.prints)
        (made.filterMap StreamCall.written?) ∧
      made.count .read = Machine.readings states := by
  intro states
  obtain ⟨final, _, followed, same⟩ := Run.complete_eq_some_iff.1 completed
  cases same
  obtain ⟨taken, le, dispatched, recorded, -⟩ := (m.start verbosity).follow_course limit
  rw [followed] at recorded
  have dispatched : (m.course taken).dispatched = states := dispatched
  have left : final.close.machine = (m.course taken).last.flush :=
    congrArg Machine.flush recorded.machine
  have counted : final.close.steps = states.length := recorded.steps.trans (Nat.zero_add _)
  have sound : m.Sound m.host m.program m.tape.size := ⟨rfl, rfl, rfl, inside⟩
  obtain ⟨orderly, writes, reads⟩ : Machine.Accounts states (states.flatMap Machine.calls) :=
    Machine.accounts_calls fun state member =>
      (sound.of_mem_course shifts (dispatched ▸ member)).inside
  refine ⟨taken, states.flatMap Machine.calls, le, dispatched, left, counted, ?_, rfl, orderly,
    orderly.count_flush, ?_, writes, reads⟩
  · calc final.close.machine.console.calls.toList
        = (m.course taken).last.console.calls.toList ++ [.flush] := by
          rw [left]
          exact Array.toList_push
      _ = m.console.calls.toList ++ (states.flatMap Machine.calls ++ [.flush]) := by
          rw [m.calls_course taken, dispatched, List.append_assoc]
  · intro earlier later cut waiting
    obtain ⟨front, rfl⟩ := orderly.flushed cut
    have last : waiting.calls.toList = (m.console.calls.toList ++ front) ++ [.flush] := by
      simp [waiting]
    exact ⟨⟨front, rfl⟩, Console.delivered_of_flushed last⟩

/-- An output too long for the host is dispatched and counted, and no call comes of it. -/
theorem huge_output_makes_no_call :
    let m : Machine :=
      { program := #[⟨.output, -1000000000000000000000000000000⟩], tape := #[0] }
    let last : Run := { machine := m.flush, steps := 1 }
    m.program.Forward ∧ m.cursor < m.tape.size ∧
      (m.start 0).complete 1 = some (last, .faulted (.shortage .index)) ∧
      (m.start 0).states 1 = [m] ∧ last.machine.console.calls.toList = [.flush] :=
  ⟨by simp [Program.Forward, Instruction.Forward], by decide, rfl, rfl, rfl⟩

/-- A run that writes, writes nothing, reads in vain and never comes to the instruction without
a name. What was written before it is delivered by the time it reads. -/
theorem stream_calls_are_orderly_unanswered :
    let m : Machine :=
      { program := #[⟨.output, 2⟩, ⟨.output, -1⟩, ⟨.input, 3⟩, ⟨.unassigned 9, 0⟩], tape := #[7]
        console := { pending := [.nothing], calls := #[.write [1]] } }
    let last : Run := ((m.start 0).follow 9).1.close
    m.program.Forward ∧ m.cursor < m.tape.size ∧
      (m.start 0).complete 9 = some (last, .faulted (.input .endOfInput)) ∧
      last.machine.console.calls.toList =
        [.write [1], .write [7, 7], .write [], .flush, .read, .flush] ∧
      ∃ made, last.machine.console.calls.toList = [.write [1]] ++ (made ++ [.flush]) ∧
        Orderly made ∧ made.count .read = Machine.readings ((m.start 0).states 9) ∧
        Console.delivered { calls := #[.write [1], .write [7, 7], .write [], .flush] } =
          [1, 7, 7] := by
  intro m last
  have shifts : m.program.Forward := by
    simp [m, Program.Forward, Instruction.Forward]
  have inside : m.cursor < m.tape.size := by decide
  have completed : (m.start 0).complete 9 = some (last, .faulted (.input .endOfInput)) := by rfl
  have calls : last.machine.console.calls.toList =
      [.write [1], .write [7, 7], .write [], .flush, .read, .flush] := by rfl
  obtain ⟨-, made, -, -, -, -, recorded, -, orderly, -, waiting, -, reads⟩ :=
    stream_calls_are_orderly shifts inside completed
  have made_eq : made = [.write [7, 7], .write [], .flush, .read] := by
    have tail : made ++ [.flush] = [.write [7, 7], .write [], .flush, .read] ++ [.flush] :=
      (List.cons.inj (calls.symm.trans recorded)).2.symm
    exact List.append_cancel_right tail
  have delivered := (waiting [.write [7, 7], .write [], .flush] [] made_eq).2
  exact ⟨shifts, inside, completed, calls, made, recorded, orderly, reads, delivered⟩

end TapeVM
