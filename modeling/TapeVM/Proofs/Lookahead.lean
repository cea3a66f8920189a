import TapeVM.Proofs.Atomicity

/-! Lookahead: there is none. A run takes one byte for each instruction that reads, so more input
behind what it has taken cannot be noticed. Two runs, one with more input than the other, go side by
side until the shorter input is used up. -/
namespace TapeVM

open Machine (Beside)

/-- A console to which the same was written, and which has more bytes to give. -/
structure Console.Precedes (more : List UInt8) (short long : Console) : Prop where
  output : long.output = short.output
  pending : ∃ unread, short.pending = (ofBytes unread).pending ∧
    long.pending = (ofBytes (unread ++ more)).pending

namespace Console

variable {more : List UInt8} {short long : Console}

theorem Precedes.write (same : short.Precedes more long) (content : List UInt8) :
    (short.write content).Precedes more (long.write content) :=
  ⟨by simp [same.output], same.pending⟩

/-- While there is a byte left in the shorter input, both consoles give it. -/
theorem Precedes.read (same : short.Precedes more long) (left : short.pending ≠ []) :
    short.flush.read.2.Precedes more long.flush.read.2 ∧
      long.flush.read.1 = short.flush.read.1 := by
  obtain ⟨unread, here, there⟩ := same.pending
  cases unread with
  | nil => exact (left here).elim
  | cons byte unread =>
    refine ⟨⟨by simp [same.output], unread, ?_, ?_⟩, ?_⟩
    · simp [here, ofBytes]
    · simp [there, ofBytes]
    · simp [read_fst, here, there, ofBytes]

theorem ofBytes_pending_injective {a b : List UInt8}
    (same : (ofBytes a).pending = (ofBytes b).pending) : a = b := by
  refine List.map_injective_iff.2 (fun x y alike => ?_) same
  simpa using alike

end Console

namespace Machine

variable {m : Machine} {i : Instruction}

def reads (m : Machine) : Bool := m.next?.any fun i => i.op = .input

def readings (states : List Machine) : Nat := states.countP reads

theorem pending_input (m : Machine) : m.input.1.console.pending = m.console.pending.tail := by
  have taken : m.console.flush.read.2.pending = m.console.pending.tail := by simp
  cases given : m.console.flush.read.1.byte? with
  | some byte =>
    rw [input_of_byte given]
    exact (congrArg Console.pending ((quiet_onCell fun _ => byte).console _)).trans taken
  | none =>
    rw [input_of_none given]
    exact taken

theorem pending_execute (m : Machine) (i : Instruction) :
    (m.execute i).1.console.pending =
      if i.op = .input then m.console.pending.tail else m.console.pending := by
  have quiet {operation : Machine → Outcome} (quiet : Quiet operation) :
      (operation m).1.console.pending = m.console.pending :=
    congrArg Console.pending (quiet.console m)
  obtain ⟨op, operand⟩ := i
  cases op with
  | add => exact quiet (quiet_onCell (· + UInt8.ofInt operand))
  | sub => exact quiet (quiet_onCell (· - UInt8.ofInt operand))
  | shiftLeft => exact quiet (quiet_shiftLeft operand)
  | shiftRight => exact quiet (quiet_shiftRight operand)
  | jumpIfZero => exact quiet (quiet_jumpIf (· == 0) operand)
  | jumpIfNonZero => exact quiet (quiet_jumpIf (· != 0) operand)
  | input => exact m.pending_input
  | output =>
    change (m.output operand).1.console.pending = m.console.pending
    rw [output]
    cases m.cell? <;> cases m.host.shortage? operand <;> rfl
  | unassigned => rfl

theorem pending_dispatch (m : Machine) (i : Instruction) :
    (m.dispatch i).1.console.pending =
      if i.op = .input then m.console.pending.tail else m.console.pending := by
  rw [← pending_execute, dispatch_eq]
  split <;> rfl

theorem dispatch_of_nothing_pending (reads : i.op = .input) (empty : m.console.pending = []) :
    (m.dispatch i).2 = some (.input .endOfInput) := by
  have nothing : m.console.flush.read.1 = .nothing := by
    rw [Console.read_fst, Console.pending_flush, empty]
    rfl
  rw [fault_dispatch, execute_of_input m reads, input_of_none (by rw [nothing]; rfl), nothing]
  rfl

theorem readings_cons (m : Machine) (states : List Machine) :
    readings (m :: states) = readings states + if m.reads then 1 else 0 :=
  List.countP_cons

/-- What a course has taken from the input is one answer for each instruction that reads, unless the
last of them found none. -/
theorem exists_taken {count : Nat}
    (fed : (m.course count).ending ≠ some (.faulted (.input .endOfInput))) :
    ∃ taken, m.console.pending = taken ++ (m.course count).last.console.pending ∧
      taken.length = readings (m.course count).dispatched := by
  induction count generalizing m with
  | zero => exact ⟨[], rfl, rfl⟩
  | succ count ih =>
    cases found : m.next? with
    | none =>
      rw [course_of_outside found]
      exact ⟨[], rfl, rfl⟩
    | some i =>
      have takes := m.pending_dispatch i
      have reading : m.reads = decide (i.op = .input) := by simp [reads, found]
      -- The instruction takes an answer if it reads, for there is one.
      have first : (m.dispatch i).2 ≠ some (.input .endOfInput) →
          ∃ taken, m.console.pending = taken ++ (m.dispatch i).1.console.pending ∧
            taken.length = if m.reads then 1 else 0 := by
        intro answered
        rw [takes, reading]
        by_cases read : i.op = .input
        · cases script : m.console.pending with
          | nil => exact (answered (dispatch_of_nothing_pending read script)).elim
          | cons answer rest => exact ⟨[answer], by simp [read], by simp [read]⟩
        · exact ⟨[], by simp [read], by simp [read]⟩
      rcases dispatched : m.dispatch i with ⟨next, _ | fault⟩
      · rw [dispatched] at first
        rw [course_of_dispatch found dispatched] at fed ⊢
        obtain ⟨one, split, single⟩ := first (by simp)
        obtain ⟨taken, split', length⟩ := ih fed
        refine ⟨one ++ taken, ?_, ?_⟩
        · rw [split, split', List.append_assoc]
          rfl
        · rw [List.length_append, single, length, Course.after, readings_cons, Nat.add_comm]
      · rw [dispatched] at first
        rw [course_of_fault found dispatched] at fed ⊢
        obtain ⟨one, split, single⟩ := first (by simpa using fed)
        exact ⟨one, split, by rw [single, readings_cons]; simp [readings]⟩

end Machine

namespace Run

variable {more : List UInt8} {long short : Run} {host : Host} {p : Program} {cells : Nat}

/-- A run goes side by side with one that has less input, and has made as many steps. -/
structure Foresees (more : List UInt8) (long short : Run) : Prop where
  machine : short.machine.Beside (Console.Precedes more) long.machine
  traced : long.traced = short.traced
  steps : long.steps = short.steps

theorem Foresees.reveals {i : Instruction} (along : Foresees more long short)
    (reveals : short.machine.Reveals short.steps i) : long.machine.Reveals long.steps i := by
  obtain ⟨console, machine, -⟩ := along.machine
  rw [machine, along.steps]
  exact reveals

theorem Foresees.hides {i : Instruction} {fault : Machine.Fault} (along : Foresees more long short)
    (hides : short.machine.Hides short.steps i fault) : long.machine.Hides long.steps i fault := by
  obtain ⟨console, machine, -⟩ := along.machine
  rw [machine, along.steps]
  exact hides

theorem Foresees.next (along : Foresees more long short)
    (fed : ∀ ending, short.next.2 = some ending → ¬ ending = .faulted (.input .endOfInput)) :
    Foresees more long.next.1 short.next.1 ∧ long.next.2 = short.next.2 := by
  obtain ⟨machine, traced, ended, steps⟩ := next_alike
    (R := fun long short => short.Beside (Console.Precedes more) long) along.machine along.traced
    along.machine.next? (fun i => along.reveals) (fun i fault _ _ => along.hides) fun i found way => by
      refine along.machine.dispatch Console.Precedes.write fun reads console same => same.read ?_
      intro empty
      refine fed _ ?_ rfl
      rw [way, Machine.dispatch_of_nothing_pending reads empty]
      rfl
  rw [along.steps] at steps
  exact ⟨⟨machine, traced, by omega⟩, ended⟩

theorem Foresees.follow (along : Foresees more long short) {count : Nat}
    (fed : (short.follow count).2 ≠ some (.faulted (.input .endOfInput))) :
    Foresees more (long.follow count).1 (short.follow count).1 ∧
      (long.follow count).2 = (short.follow count).2 := by
  have step (long short : Run) (along : Foresees more long short)
      (fed : ∀ ending, short.next.2 = some ending →
        ¬ ending = .faulted (.input .endOfInput)) := along.next fed
  refine follow_alike step along count ?_
  rintro _ ended rfl
  exact fed ended

end Run

/-- Two machines stand at the same place, with the same tape, and have written the same. -/
structure Machine.Abreast (m other : Machine) : Prop where
  pc : m.pc = other.pc
  cursor : m.cursor = other.cursor
  tape : m.tape = other.tape
  output : m.console.output = other.console.output

namespace Machine

variable {more : List UInt8} {short long : Machine}

theorem Abreast.flush {m other : Machine} (abreast : m.Abreast other) :
    m.flush.Abreast other.flush :=
  ⟨abreast.pc, abreast.cursor, abreast.tape, by simp [Machine.flush, abreast.output]⟩

theorem Beside.abreast (beside : short.Beside (Console.Precedes more) long) :
    long.Abreast short := by
  obtain ⟨console, rfl, same⟩ := beside
  exact ⟨rfl, rfl, rfl, same.output⟩

theorem Beside.exists_unread (beside : short.Beside (Console.Precedes more) long) :
    ∃ unread, short.console.pending = (Console.ofBytes unread).pending ∧
      long.console.pending = (Console.ofBytes (unread ++ more)).pending := by
  obtain ⟨console, rfl, same⟩ := beside
  exact same.pending

theorem beside_of_load {host : Host} {program : Program} {tapeSize : Int} {s : List UInt8}
    (loaded : load host program tapeSize (.ofBytes s) = .ok short)
    (loaded' : load host program tapeSize (.ofBytes (s ++ more)) = .ok long) :
    short.Beside (Console.Precedes more) long := by
  obtain ⟨-, -, -, rfl⟩ := load_eq_ok_iff.1 loaded
  obtain ⟨-, -, -, rfl⟩ := load_eq_ok_iff.1 loaded'
  exact ⟨_, rfl, rfl, s, rfl, rfl⟩

theorem pending_of_load {host : Host} {program : Program} {tapeSize : Int} {s : List UInt8}
    (loaded : load host program tapeSize (.ofBytes s) = .ok short) :
    short.console.pending = (Console.ofBytes s).pending := by
  obtain ⟨-, -, -, rfl⟩ := load_eq_ok_iff.1 loaded
  rfl

theorem exists_used {s unread : List UInt8} {verbosity : Int} {count : Nat}
    (given : short.console.pending = (Console.ofBytes s).pending)
    (fed : ((short.start verbosity).follow count).2 ≠ some (.faulted (.input .endOfInput)))
    (left : ((short.start verbosity).follow count).1.machine.console.pending =
      (Console.ofBytes unread).pending) :
    ∃ used, s = used ++ unread ∧
      used.length = readings ((short.start verbosity).states count) := by
  obtain ⟨steps, -, dispatched, recorded, ended⟩ := (short.start verbosity).follow_course count
  have fed' : (short.course steps).ending ≠ some (.faulted (.input .endOfInput)) := by
    rcases ended with same | ⟨going, -⟩
    · exact same ▸ fed
    · simp [show (short.course steps).ending = none from going]
  obtain ⟨taken, split, length⟩ := exists_taken fed'
  rw [recorded.machine] at left
  rw [given, show (short.course steps).last.console.pending = _ from left] at split
  obtain ⟨used, rest, rfl, rfl, same⟩ := List.map_eq_append_iff.1 split
  obtain rfl := Console.ofBytes_pending_injective same
  rw [show (short.course steps).dispatched = _ from dispatched] at length
  exact ⟨used, rfl, by simpa using length⟩

end Machine

theorem Run.exists_follow_more {host : Host} {program : Program} {tapeSize : Int}
    {s t : List UInt8} {short long : Machine}
    (loaded : Machine.load host program tapeSize (.ofBytes s) = .ok short)
    (loaded' : Machine.load host program tapeSize (.ofBytes (s ++ t)) = .ok long) {verbosity : Int}
    {count : Nat} {here : Run} {ending : Option Ending}
    (followed : (short.start verbosity).follow count = (here, ending))
    (fed : ending ≠ some (.faulted (.input .endOfInput))) :
    ∃ there, (long.start verbosity).follow count = (there, ending) ∧ Foresees t there here := by
  have start : Foresees t (long.start verbosity) (short.start verbosity) :=
    ⟨Machine.beside_of_load loaded loaded', rfl, rfl⟩
  have fed' : ((short.start verbosity).follow count).2 ≠ some (.faulted (.input .endOfInput)) := by
    rwa [followed]
  obtain ⟨along, same⟩ := start.follow fed'
  rw [followed] at along same
  exact ⟨_, Prod.ext rfl same, along⟩

/-- A run whose next read finds nothing has taken all its input, and stops where it stands. A run on
more input stands there too, and has all of that left. -/
theorem Run.Foresees.exhausted {more : List UInt8} {there here stopped : Run} {host : Host}
    {p : Program} {cells : Nat} (along : Foresees more there here)
    (sound : here.machine.Sound host p cells)
    (shifts : p.Forward)
    (ended : here.next = (stopped, some (.faulted (.input .endOfInput)))) :
    stopped.machine.console.pending = [] ∧ there.machine.Abreast stopped.machine ∧
      stopped.steps = there.steps + 1 ∧
      there.machine.console.pending = (Console.ofBytes more).pending := by
  obtain ⟨i, found, dispatched, counted⟩ := exists_dispatch ended fun _ _ => id
  have forward : i.Forward := shifts i (sound.program ▸ Machine.mem_of_next? found)
  have raised : (here.machine.dispatch i).2 = some (.input .endOfInput) := by rw [dispatched]
  obtain ⟨reads, missing, -⟩ := (sound.dispatch_fault_iff forward).1 raised
  obtain ⟨unread, left, left'⟩ := along.machine.exists_unread
  obtain rfl : unread = [] := by
    cases unread with
    | nil => rfl
    | cons byte rest => simp [Console.read_fst, left, Console.ofBytes, ReadResult.byte?] at missing
  obtain ⟨⟨console, stands, unwritten⟩, -⟩ := sound.dispatch_fails forward raised
  have taken := here.machine.pending_dispatch i
  rw [if_pos reads, left, dispatched] at taken
  rw [dispatched] at stands
  obtain ⟨pc, cursor, tape, output⟩ := along.machine.abreast
  refine ⟨taken, ?_, by rw [counted, along.steps], left'⟩
  rw [show stopped.machine = _ from stands]
  exact ⟨pc, cursor, tape, output.trans unwritten.symm⟩

/-- Input is never read ahead. Until the shorter of two inputs is used up, a run on it and a run on
it with more behind are at the same place with the same tape and output after every step, and both
have taken one byte for each instruction that read, whatever its operand. So a run that does not
need more input ends in the same way if there is more, and leaves that unread; and one that does
need more is, with more, at that very place before its next byte. -/
theorem input_is_never_read_ahead {host : Host} {program : Program} {tapeSize : Int}
    {s t : List UInt8} {short long : Machine} (shifts : program.Forward)
    (loaded : Machine.load host program tapeSize (.ofBytes s) = .ok short)
    (loaded' : Machine.load host program tapeSize (.ofBytes (s ++ t)) = .ok long)
    (verbosity : Int) :
    (∀ count here ending, (short.start verbosity).follow count = (here, ending) →
      ending ≠ some (.faulted (.input .endOfInput)) →
      ∃ there used unread, (long.start verbosity).follow count = (there, ending) ∧
        there.machine.Abreast here.machine ∧ s = used ++ unread ∧
        here.machine.console.pending = (Console.ofBytes unread).pending ∧
        there.machine.console.pending = (Console.ofBytes (unread ++ t)).pending ∧
        used.length = Machine.readings ((short.start verbosity).states count) ∧
        used.length = Machine.readings ((long.start verbosity).states count)) ∧
    (∀ limit last ending, (short.start verbosity).complete limit = some (last, ending) →
      ending ≠ .faulted (.input .endOfInput) →
      ∃ last' unread, (long.start verbosity).complete limit = some (last', ending) ∧
        last'.machine.Abreast last.machine ∧ last'.steps = last.steps ∧ unread <:+ s ∧
        last.machine.console.pending = (Console.ofBytes unread).pending ∧
        last'.machine.console.pending = (Console.ofBytes (unread ++ t)).pending) ∧
    (∀ limit last, (short.start verbosity).complete limit =
        some (last, .faulted (.input .endOfInput)) →
      last.machine.console.pending = [] ∧
        ∃ there, (long.start verbosity).follow there.steps = (there, none) ∧
          there.machine.Abreast last.machine ∧ last.steps = there.steps + 1 ∧
          there.machine.console.pending = (Console.ofBytes t).pending) := by
  have given := Machine.pending_of_load loaded
  have given' := Machine.pending_of_load loaded'
  refine ⟨?_, ?_, ?_⟩
  · intro count here ending followed fed
    obtain ⟨there, followed', along⟩ := Run.exists_follow_more loaded loaded' followed fed
    obtain ⟨unread, left, left'⟩ := along.machine.exists_unread
    obtain ⟨used, split, length⟩ :=
      Machine.exists_used given (by rwa [followed]) (by rw [followed, left])
    obtain ⟨used', split', length'⟩ :=
      Machine.exists_used given' (by rwa [followed']) (by rw [followed', left'])
    obtain rfl : used = used' := by
      rw [split, List.append_assoc] at split'
      exact List.append_cancel_right split'
    exact ⟨there, used, unread, followed', along.machine.abreast, split, left, left', length,
      length'⟩
  · intro limit last ending completed fed
    obtain ⟨here, _, followed, same⟩ := Run.complete_eq_some_iff.1 completed
    cases same
    have fed' : some ending ≠ some (.faulted (.input .endOfInput)) := by simpa using fed
    obtain ⟨there, followed', along⟩ := Run.exists_follow_more loaded loaded' followed fed'
    obtain ⟨unread, left, left'⟩ := along.machine.exists_unread
    obtain ⟨used, split, -⟩ :=
      Machine.exists_used given (by rwa [followed]) (by rw [followed, left])
    exact ⟨there.close, unread, Run.complete_eq_some_iff.2 ⟨there, ending, followed', rfl⟩,
      along.machine.abreast.flush, along.steps, ⟨used, split.symm⟩, left, left'⟩
  · intro limit last completed
    obtain ⟨stopped, _, followed, same⟩ := Run.complete_eq_some_iff.1 completed
    cases same
    obtain ⟨count, here, -, led, ended⟩ := Run.exists_last followed
    obtain ⟨there, led', along⟩ := Run.exists_follow_more loaded loaded' led (by simp)
    have start : (short.start verbosity).machine.Sound host program tapeSize.toNat :=
      Machine.sound_of_load loaded
    have sound := (start.follow shifts count).1
    rw [led] at sound
    obtain ⟨empty, ⟨pc, cursor, tape, output⟩, counted, left⟩ := along.exhausted sound shifts ended
    have steps : there.steps = count := (Run.steps_of_follow led').trans (Nat.zero_add count)
    refine ⟨empty, there, steps.symm ▸ led', ⟨pc, cursor, tape, ?_⟩, counted, left⟩
    rw [output]
    exact (Console.output_flush _).symm

/-- The second read of an echo finds nothing; with more input it would have gone on. -/
theorem input_is_never_read_ahead_echo :
    let program : Program := #[⟨.input, 3⟩, ⟨.output, 1⟩, ⟨.jumpIfNonZero, -1⟩]
    let short : Machine := { program, tape := #[0], console := .ofBytes [65] }
    let long : Machine := { program, tape := #[0], console := .ofBytes ([65] ++ [66, 67]) }
    let last : Run := ((short.start 0).follow 9).1.close
    program.Forward ∧ Machine.load {} program 1 (.ofBytes [65]) = .ok short ∧
      Machine.load {} program 1 (.ofBytes ([65] ++ [66, 67])) = .ok long ∧
      (short.start 0).complete 9 = some (last, .faulted (.input .endOfInput)) ∧
      last.machine.console.pending = [] ∧ last.machine.console.output = [65] ∧
      ∃ there, (long.start 0).follow there.steps = (there, none) ∧
        there.machine.Abreast last.machine ∧ last.steps = there.steps + 1 ∧
        there.machine.console.pending = [.bytes [66], .bytes [67]] := by
  intro program short long last
  have shifts : program.Forward := by
    simp [program, Program.Forward, Instruction.Forward]
  have loaded : Machine.load {} program 1 (.ofBytes [65]) = .ok short := by rfl
  have loaded' : Machine.load {} program 1 (.ofBytes ([65] ++ [66, 67])) = .ok long := by rfl
  have completed : (short.start 0).complete 9 =
      some (last, .faulted (.input .endOfInput)) := by rfl
  obtain ⟨empty, there, led, abreast, steps, left⟩ :=
    (input_is_never_read_ahead shifts loaded loaded' 0).2.2 9 last completed
  exact ⟨shifts, loaded, loaded', completed, empty, rfl, there, led, abreast, steps, left⟩

end TapeVM
