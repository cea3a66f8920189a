import TapeVM.Engine
import TapeVM.Proofs.Observation
import TapeVM.Proofs.Refinement

/-! Confinement: the program counter of an assembled program stays within its code. A jump leads to
its partner, and from there one further, which is at most the place behind the last instruction. -/
namespace TapeVM

open Nesting

/-- The jumps at two indices are those of matching brackets of the source. -/
def Partners (source : Source) (program : Program) (i j : Nat) : Prop :=
  ∃ a b k m : Nat, Matched source.brackets a b ∧
    (places source.brackets)[k]? = some a ∧ (places source.brackets)[m]? = some b ∧
    (places program.brackets)[k]? = some i ∧ (places program.brackets)[m]? = some j

theorem Partners.of_matched {source : Source} {program : Program} {i j : Nat}
    (accepted : Program.ofSource source = .ok program) (matched : Matched program.brackets i j) :
    Partners source program i j := by
  obtain ⟨k, m, a, b, first, second, first', second', matched'⟩ :=
    matched.transfer (Program.marks_brackets accepted).symm
  exact ⟨a, b, k, m, matched', first', second', first, second⟩

/-- The program counter is at an instruction or right behind the last one. -/
def Machine.InCode (m : Machine) : Prop := 0 ≤ m.pc ∧ m.pc ≤ m.program.size

/-- Code runs off its end, leaves the tape or lacks input. -/
inductive CodeEnds (m : Machine) : Run.Ending → Prop where
  | finished (behind : m.pc = m.program.size) : CodeEnds m .finished
  | tape (size excess : Nat) : CodeEnds m (.faulted (.tapeOverflow size excess))
  | input (cause : Machine.InputFault) : CodeEnds m (.faulted (.input cause))

variable {host : Host} {p : Program} {cells : Nat}

namespace Machine

variable {m : Machine} {i : Instruction}

theorem pc_onCell (m : Machine) (change : UInt8 → UInt8) : (m.onCell change).1.pc = m.pc := by
  rw [onCell]
  split <;> rfl

theorem pc_shiftRight (m : Machine) (amount : Int) : (m.shiftRight amount).1.pc = m.pc := by
  rw [shiftRight]
  split <;> rfl

theorem pc_output (m : Machine) (amount : Int) : (m.output amount).1.pc = m.pc := by
  rw [output]
  cases m.cell? <;> cases m.host.shortage? amount <;> rfl

theorem pc_input (m : Machine) : m.input.1.pc = m.pc := by
  cases given : m.console.flush.read.1.byte? with
  | some byte => rw [input_of_byte given, pc_onCell]
  | none => rw [input_of_none given]

theorem pc_jumpIf (m : Machine) (condition : UInt8 → Bool) (target : Int) :
    (m.jumpIf condition target).1.pc = m.pc ∨ (m.jumpIf condition target).1.pc = target := by
  rw [jumpIf]
  split
  · split
    · exact .inr rfl
    · exact .inl rfl
  · exact .inl rfl

theorem pc_execute (m : Machine) (i : Instruction) :
    (m.execute i).1.pc = m.pc ∨ i.op.bracket? ≠ none ∧ (m.execute i).1.pc = i.operand := by
  obtain ⟨op, operand⟩ := i
  cases op with
  | add => exact .inl (m.pc_onCell _)
  | sub => exact .inl (m.pc_onCell _)
  | shiftLeft => exact .inl rfl
  | shiftRight => exact .inl (m.pc_shiftRight operand)
  | jumpIfZero => exact (m.pc_jumpIf _ operand).imp id fun taken => ⟨by simp [Opcode.bracket?], taken⟩
  | jumpIfNonZero =>
    exact (m.pc_jumpIf _ operand).imp id fun taken => ⟨by simp [Opcode.bracket?], taken⟩
  | input => exact .inl m.pc_input
  | output => exact .inl (m.pc_output operand)
  | unassigned => exact .inl rfl

theorem index_of_next? (found : m.next? = some i) : 0 ≤ m.pc ∧ m.pc < m.program.size := by
  rw [next?] at found
  split at found
  · have := (Array.getElem?_eq_some_iff.1 found).1
    omega
  · cases found

theorem InCode.dispatch (sound : m.Sound host p cells) (linked : p.Linked) (forward : i.Forward)
    (found : m.next? = some i) : (m.dispatch i).1.InCode := by
  have same := (sound.dispatch forward).sound.program
  have index := index_of_next? found
  have member := mem_of_next? found
  rw [sound.program] at index member
  rw [InCode, same, dispatch_eq]
  have moved := m.pc_execute i
  split
  · rcases moved with moved | ⟨jumps, moved⟩
    · omega
    · have := linked.operand_lt member jumps
      omega
  · dsimp only
    rcases moved with moved | ⟨jumps, moved⟩
    · omega
    · have := linked.operand_lt member jumps
      omega

theorem InCode.behind (inCode : m.InCode) (outside : m.next? = none) : m.pc = m.program.size := by
  obtain ⟨low, high⟩ := inCode
  rw [next?, if_pos low, Array.getElem?_eq_none_iff] at outside
  omega

end Machine

namespace Run

variable {run : Run} {i : Instruction}

theorem next_taken {condition : UInt8 → Bool} {value : UInt8}
    (found : run.machine.next? = some i)
    (reveals : run.traced = true → run.machine.Reveals run.steps i)
    (jumps : run.machine.execute i = run.machine.jumpIf condition i.operand)
    (cell : run.machine.cell? = some value) (taken : condition value = true) :
    ∃ after, run.next = (after, none) ∧ after.machine.pc = i.operand + 1 := by
  obtain ⟨trace, next⟩ := next_of_reveals found reveals
  have executed : run.machine.dispatch i =
      ({ run.machine with pc := i.operand + 1 }, none) := by
    rw [Machine.dispatch, jumps, Machine.jumpIf, cell]
    simp [taken]
  rw [dispatch_eq] at next
  simp only [executed] at next
  exact ⟨_, next, rfl⟩

end Run

theorem Machine.Sound.next_inCode {run : Run} (sound : run.machine.Sound host p cells)
    (linked : p.Linked) (forward : p.Forward) (inCode : run.machine.InCode) :
    run.next.1.machine.InCode := by
  rcases run.next_cases with outside | ⟨i, fault, found, traced, hides⟩ | ⟨i, found, reveals⟩
  · rw [Run.next_of_outside outside]
    exact inCode
  · rw [Run.next_of_hides found traced hides]
    exact inCode
  · obtain ⟨trace, next⟩ := Run.next_of_reveals found reveals
    rw [next]
    exact InCode.dispatch sound linked (forward i (sound.program ▸ mem_of_next? found)) found

theorem Program.forward_of_canonical (canonical : p.Canonical) : p.Forward := by
  intro i member shifts
  have plain : i.op.bracket? = none := by rcases shifts with is | is <;> rw [is] <;> rfl
  have := canonical.positive i member plain
  omega

theorem Program.Canonical.ne_unassigned (canonical : p.Canonical) {i : Instruction}
    (member : i ∈ p) (code : Int) : i.op ≠ .unassigned code := by
  obtain ⟨symbol, is⟩ := canonical.known i member
  rw [is]
  cases symbol <;> simp [Opcode.ofSymbol]

namespace Machine.Sound

variable {m : Machine} {i : Instruction}

/-- On a host that has room for the program and the tape, what can keep an instruction of the
program from being shown is the number of the step only. -/
theorem reveals (sound : m.Sound host p cells) (canonical : p.Canonical) (fits : p.Fits host)
    (room : host.shortage? cells = none) (found : m.next? = some i) {step : Nat}
    (writes : host.Writes step) : m.Reveals step i := by
  have member : i ∈ p := sound.program ▸ mem_of_next? found
  obtain ⟨low, high⟩ := index_of_next? found
  rw [sound.program] at high
  have small {n size : Int} (room : host.shortage? size = none) (positive : 0 ≤ n) (le : n ≤ size) :
      host.Writes n :=
    Host.writes_of_shortage?_eq_none positive (Host.shortage?_of_le positive le room)
  refine ⟨Opcode.name?_isSome_iff.2 (canonical.ne_unassigned member), ?_⟩
  rw [sound.host]
  intro n shown
  simp only [List.mem_cons, List.not_mem_nil, or_false] at shown
  rcases shown with rfl | rfl | rfl | rfl
  · exact writes
  · exact small fits.size low (by omega)
  · obtain ⟨positive, held⟩ := fits.operand i member
    exact small held positive (Int.le_refl _)
  · have := sound.cursor
    exact small room (Int.natCast_nonneg _) (by omega)

theorem codeEnds_dispatch (sound : m.Sound host p cells) (canonical : p.Canonical)
    (fits : p.Fits host) (member : i ∈ p) {fault : Fault}
    (raised : (m.dispatch i).2 = some fault) : CodeEnds (m.dispatch i).1 (.faulted fault) := by
  have forward := Program.forward_of_canonical canonical i member
  have allowed := (sound.dispatch forward).fault fault raised
  cases fault with
  | tapeOverflow => exact .tape _ _
  | input => exact .input _
  | unimplemented code => exact (canonical.ne_unassigned member code allowed).elim
  | shortage cause =>
    have short : host.shortage? i.operand = some cause := allowed.2
    simp [(fits.operand i member).2] at short
  | unnamed | noInstruction | offTape | overlong => exact allowed.elim

end Machine.Sound

/-- A step that ends a run of assembled code ends it in one of the ways in which code ends. -/
theorem codeEnds_next {run last : Run} {ending : Run.Ending} (canonical : p.Canonical)
    (fits : p.Fits host) (room : host.shortage? cells = none)
    (sound : run.machine.Sound host p cells) (inCode : run.machine.InCode)
    (writes : run.traced = true → host.Writes run.steps)
    (ended : run.next = (last, some ending)) : CodeEnds last.machine ending := by
  rcases run.next_cases with outside | ⟨i, fault, found, traced, hides⟩ | ⟨i, found, reveals⟩
  · rw [Run.next_of_outside outside] at ended
    cases ended
    exact .finished (inCode.behind outside)
  · have reveals := sound.reveals canonical fits room found (writes traced)
    exact (reveals.not_hides hides).elim
  · obtain ⟨trace, next⟩ := Run.next_of_reveals found reveals
    rw [next, Run.dispatch_eq] at ended
    obtain ⟨rfl, same⟩ := Prod.mk.inj ended
    obtain ⟨fault, raised, rfl⟩ := Option.map_eq_some_iff.1 same
    exact sound.codeEnds_dispatch canonical fits (sound.program ▸ Machine.mem_of_next? found) raised

theorem follow_inCode {run : Run} (canonical : p.Canonical) (sound : run.machine.Sound host p cells)
    (inCode : run.machine.InCode) (count : Nat) :
    (run.follow count).1.machine.Sound host p cells ∧ (run.follow count).1.machine.InCode := by
  have forward := Program.forward_of_canonical canonical
  have kept := Run.follow_induction
    (P := fun r => r.machine.Sound host p cells ∧ r.machine.InCode) (Q := fun _ _ => True)
    (fun r ⟨here, inside⟩ =>
      ⟨⟨(here.next forward).1, here.next_inCode canonical.toLinked forward inside⟩,
        fun _ _ => trivial⟩)
    ⟨sound, inCode⟩ count
  exact kept.1

theorem codeEnds_follow {run last : Run} {ending : Run.Ending} (canonical : p.Canonical)
    (fits : p.Fits host) (room : host.shortage? cells = none)
    (sound : run.machine.Sound host p cells) (inCode : run.machine.InCode) {count : Nat}
    (writes : run.traced = true → host.Writes (run.steps + count : Nat))
    (ended : run.follow count = (last, some ending)) : CodeEnds last.machine ending := by
  obtain ⟨before, mid, less, led, final⟩ := Run.exists_last ended
  obtain ⟨here, inside⟩ := follow_inCode canonical sound inCode before
  obtain ⟨_, -, -, recorded, -⟩ := run.follow_course before
  rw [led] at here inside recorded
  have counted : mid.steps ≤ run.steps + count := by
    rw [Run.steps_of_follow led]
    omega
  refine codeEnds_next canonical fits room here inside (fun traced => ?_) final
  exact (writes (recorded.traced.symm.trans traced)).of_natCast_le counted

theorem Machine.violation?_of_not_infix {source : Source} {program : Program}
    (accepted : Program.ofSource source = .ok program)
    (increments : ¬ List.replicate operandLimit .increment <:+: source.symbols)
    (decrements : ¬ List.replicate operandLimit .decrement <:+: source.symbols) :
    violation? program = none := by
  obtain ⟨block, spelled, rfl⟩ := Program.ofSource_eq_ok_iff.1 accepted
  refine Block.violation?_program fun n member => ?_
  rw [block.pieces_program, ← block.stretches_symbols, spelled] at member
  rcases member with member | member
  · exact lt_of_not_infix increments member
  · exact lt_of_not_infix decrements member

/-- An assembled program with short stretches is loaded, and from then on, however it is run, its
program counter stays at its instructions or right behind the last. It ends only there, on the tape
or on the input, and a jump that is taken goes on behind the partner of its bracket. The host has to
have room for the tape and for as much as the source has symbols; a traced run can go on for as many
steps as have numbers that can be written. -/
theorem assembled_run_stays_in_code {source : Source} {program : Program}
    (accepted : Program.ofSource source = .ok program)
    (increments : ¬ List.replicate 255 .increment <:+: source.symbols)
    (decrements : ¬ List.replicate 255 .decrement <:+: source.symbols)
    (engine : Engine) (fits : engine.host.shortage? source.symbols.length = none)
    (file : Option String) {tapeSize : Option Int} (positive : 1 ≤ tapeSize.getD engine.tapeSize)
    (room : engine.host.shortage? (tapeSize.getD engine.tapeSize) = none) (console : Console) :
    ∃ machine, engine.load source file tapeSize console = .ok machine ∧
      machine.program = program ∧
      ∀ verbosity count run ending, (machine.start verbosity).follow count = (run, ending) →
        (0 ≤ run.machine.pc ∧ run.machine.pc ≤ program.size) ∧
        ((0 < verbosity → engine.host.Writes count) →
        (∀ last, ending = some last → CodeEnds run.machine last) ∧
        (∀ (i : Nat) target, program[i]? = some ⟨.jumpIfZero, target⟩ →
          ∃ j, Partners source program i j ∧
            (run.machine.pc = i → run.machine.cell? = some 0 →
              ∃ after, run.next = (after, none) ∧ after.machine.pc = j + 1)) ∧
        (∀ (j : Nat) target, program[j]? = some ⟨.jumpIfNonZero, target⟩ →
          ∃ i, Partners source program i j ∧
            ∀ value ≠ 0, run.machine.pc = j → run.machine.cell? = some value →
              ∃ after, run.next = (after, none) ∧ after.machine.pc = i + 1)) := by
  obtain ⟨block, spelled, rfl⟩ := Program.ofSource_eq_ok_iff.1 accepted
  have canonical := block.canonical_program
  let machine : Machine :=
    { program := block.program, tape := Tape.blank (tapeSize.getD engine.tapeSize).toNat, console,
      host := engine.host }
  have loaded : Machine.load engine.host block.program (tapeSize.getD engine.tapeSize) console =
      .ok machine :=
    Machine.load_eq_ok_iff.2
      ⟨positive, room, Machine.violation?_of_not_infix accepted increments decrements, rfl⟩
  have sound := Machine.sound_of_load loaded
  have fits := Program.fits_of_source accepted fits
  have room : engine.host.shortage? (tapeSize.getD engine.tapeSize).toNat = none := by
    rwa [Int.toNat_of_nonneg (by omega)]
  refine ⟨machine, ?_, rfl, fun verbosity count run ending followed => ?_⟩
  · simp [Engine.load, Engine.compile, accepted, loaded, Except.mapError]
  · have start : (machine.start verbosity).machine.Sound engine.host block.program _ := sound
    have inCode : (machine.start verbosity).machine.InCode := ⟨Int.le_refl 0, Int.natCast_nonneg _⟩
    obtain ⟨kept, inside⟩ := follow_inCode canonical start inCode count
    have steps := (machine.start verbosity).steps_follow_le count
    obtain ⟨_, -, -, recorded, -⟩ := (machine.start verbosity).follow_course count
    rw [followed] at kept inside steps recorded
    dsimp only at kept inside steps recorded
    rw [Machine.InCode, kept.program] at inside
    have next? {i : Nat} (here : run.machine.pc = i) : run.machine.next? = block.program[i]? := by
      simp [Machine.next?, here, kept.program]
    refine ⟨inside, fun writes => ?_⟩
    have traced (is : run.traced = true) : 0 < verbosity :=
      of_decide_eq_true (recorded.traced.symm.trans is)
    have started : (machine.start verbosity).steps + count = count := Nat.zero_add count
    rw [started] at steps
    have reveals {i : Instruction} (found : run.machine.next? = some i) (is : run.traced = true) :
        run.machine.Reveals run.steps i :=
      kept.reveals canonical fits room found ((writes (traced is)).of_natCast_le steps)
    refine ⟨?_, ?_, ?_⟩
    · rintro last rfl
      refine codeEnds_follow canonical fits room start inCode (fun is => ?_) followed
      rw [started]
      exact writes (of_decide_eq_true is)
    · intro i target opens
      obtain ⟨j, matched, rfl⟩ := canonical.opening i target opens
      exact ⟨j, .of_matched accepted matched, fun here zero =>
        Run.next_taken ((next? here).trans opens) (reveals ((next? here).trans opens)) rfl zero rfl⟩
    · intro j target closes
      obtain ⟨i, matched, rfl⟩ := canonical.closing j target closes
      exact ⟨i, .of_matched accepted matched, fun value nonzero here cell =>
        Run.next_taken ((next? here).trans closes) (reveals ((next? here).trans closes)) rfl cell
          (by simpa using nonzero)⟩

/-- The inner of two loops, which a comment parts from the outer one. -/
theorem assembled_run_stays_in_code_nested :
    let source : Source := .bytes [0x2b, 0x2b, 0x5b, 0x20, 0x5b, 0x2d, 0x5d, 0x5d]
    let program : Program := #[⟨.add, 2⟩, ⟨.jumpIfZero, 5⟩, ⟨.jumpIfZero, 4⟩, ⟨.sub, 1⟩,
      ⟨.jumpIfNonZero, 2⟩, ⟨.jumpIfNonZero, 1⟩]
    Program.ofSource source = .ok program ∧ ¬ List.replicate 255 .increment <:+: source.symbols ∧
      ¬ List.replicate 255 .decrement <:+: source.symbols ∧
      Host.shortage? {} source.symbols.length = none ∧ (1 : Int) ≤ (some 1).getD defaultTapeSize ∧
      Host.shortage? {} ((some 1).getD defaultTapeSize) = none ∧
      ∃ machine, Engine.load {} source none (some 1) {} = .ok machine ∧
        ∀ verbosity count run ending, (machine.start verbosity).follow count = (run, ending) →
          count ≤ 9223372036854775807 →
          (0 ≤ run.machine.pc ∧ run.machine.pc ≤ 6) ∧
          (∀ last, ending = some last → CodeEnds run.machine last) ∧
          ∃ j, Partners source program 2 j ∧ (run.machine.pc = 2 → run.machine.cell? = some 0 →
            ∃ after, run.next = (after, none) ∧ after.machine.pc = j + 1) := by
  intro source program
  have accepted : Program.ofSource source = .ok program :=
    Program.ofSource_eq_ok_iff.2 ⟨.action .increment (.action .increment
      (.loop (.loop (.action .decrement .stop) .stop) .stop)), by decide, by decide⟩
  have absent (symbol : Symbol) : ¬ List.replicate 255 symbol <:+: source.symbols := by
    intro long
    have length := long.length_le
    rw [List.length_replicate] at length
    exact absurd length (by decide)
  have positive : (1 : Int) ≤ (some 1).getD defaultTapeSize := by decide
  obtain ⟨machine, loaded, same, runs⟩ :=
    assembled_run_stays_in_code accepted (absent _) (absent _) {} rfl none positive rfl {}
  refine ⟨accepted, absent _, absent _, rfl, positive, rfl, machine, loaded, ?_⟩
  intro verbosity count run ending followed few
  obtain ⟨inside, rest⟩ := runs verbosity count run ending followed
  obtain ⟨ends, opening, -⟩ := rest fun _ => Host.writes_of_natAbs_le (by simpa using few)
  exact ⟨inside, ends, opening 2 4 rfl⟩

end TapeVM
