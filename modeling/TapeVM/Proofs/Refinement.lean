import TapeVM.Machine.Load
import TapeVM.Proofs.Canonical
import TapeVM.Proofs.Simulation
import TapeVM.Proofs.Step

/-! Refinement: a machine that runs the program of a block ends if and only if the interpretation of
the block does, and in the same way. From the interpretation to the run this is an induction on the
depth, back from the run an induction on its steps. -/
namespace TapeVM

open Nesting Reference

theorem Program.Linked.operand_lt {p : Program} (linked : p.Linked) {i : Instruction} (member : i ∈ p)
    (jumps : i.op.bracket? ≠ none) : 0 ≤ i.operand ∧ i.operand < p.size := by
  obtain ⟨k, bound, rfl⟩ := Array.mem_iff_getElem.1 member
  have here : p[k]? = some p[k] := Array.getElem?_eq_some_iff.2 ⟨bound, rfl⟩
  rcases kind : p[k] with ⟨op, target⟩
  rw [kind] at here jumps
  cases op with
  | jumpIfZero =>
    obtain ⟨j, matched, rfl⟩ := linked.opening k target here
    have := p.length_brackets ▸ matched.lt_length
    simp only
    omega
  | jumpIfNonZero =>
    obtain ⟨i, matched, rfl⟩ := linked.closing k target here
    have := matched.lt
    simp only
    omega
  | _ => exact (jumps rfl).elim

/-- A program is no longer, and its operands are no larger, than the host can hold. -/
structure Program.Fits (host : Host) (p : Program) : Prop where
  size : host.shortage? p.size = none
  operand : ∀ i ∈ p, 0 ≤ i.operand ∧ host.shortage? i.operand = none

theorem Program.fits_of_source {host : Host} {source : Source} {program : Program}
    (accepted : Program.ofSource source = .ok program)
    (room : host.shortage? source.symbols.length = none) : program.Fits host := by
  obtain ⟨block, spelled, rfl⟩ := Program.ofSource_eq_ok_iff.1 accepted
  have canonical := block.canonical_program
  have length : (unstretch block.program.pieces).length = source.symbols.length := by
    rw [← spelled, ← block.symbols_program, Program.symbols]
  have pieces : block.program.size = block.program.pieces.length := by
    simpa using congrArg List.length block.map_piece?_program
  have size : block.program.size ≤ source.symbols.length := by
    rw [pieces, ← length]
    exact length_le_length_unstretch canonical.maximal.positive
  have small {n : Int} (positive : 0 ≤ n) (le : n ≤ source.symbols.length) :
      0 ≤ n ∧ host.shortage? n = none := ⟨positive, Host.shortage?_of_le positive le room⟩
  refine ⟨(small (Int.natCast_nonneg _) (by omega)).2, fun i member => ?_⟩
  by_cases plain : i.op.bracket? = none
  · have positive := canonical.positive i member plain
    obtain ⟨⟨symbol, n⟩, found, piece⟩ := Block.exists_piece member
    obtain ⟨is, count⟩ := Instruction.piece?_eq_some_iff.1 piece
    rw [is, Opcode.bracket?_ofSymbol] at plain
    rw [if_pos plain] at count
    have bound := length ▸ le_length_unstretch found
    exact small (by omega) (by omega)
  · have index := canonical.toLinked.operand_lt member plain
    exact small index.1 (by omega)

namespace Run

/-- A run that is not traced stands at an index of a program, with a machine that mirrors a state on
a host that the program fits. -/
structure At (run : Run) (p : Program) (index : Nat) (s : State) : Prop where
  untraced : run.traced = false
  fits : p.Fits run.machine.host
  program : run.machine.program = p
  pc : run.machine.pc = index
  mirrors : run.machine.Mirrors s

def setPc (run : Run) (pc : Nat) : Run := { run with machine := { run.machine with pc } }

def jumpTo (run : Run) (pc : Nat) : Run := { run.setPc pc with steps := run.steps + 1 }

variable {run : Run} {p : Program} {index : Nat} {s : State}

theorem At.setPc (here : run.At p index s) (pc : Nat) : (run.setPc pc).At p pc s :=
  ⟨here.untraced, here.fits, here.program, rfl, here.mirrors.setPc pc⟩

theorem At.jumpTo (here : run.At p index s) (pc : Nat) : (run.jumpTo pc).At p pc s :=
  ⟨here.untraced, here.fits, here.program, rfl, here.mirrors.setPc pc⟩

theorem At.next? (here : run.At p index s) : run.machine.next? = p[index]? := by
  simp [Machine.next?, here.pc, here.program]

theorem At.next_eq (here : run.At p index s) {i : Instruction} (found : p[index]? = some i) :
    run.next = run.dispatch i := by
  simp [next, here.next?, found, here.untraced]

theorem At.next_behind (here : run.At p p.size s) : run.next = (run, some .finished) := by
  simp [next, here.next?]

theorem At.next_jump (here : run.At p index s) {i : Instruction} {condition : UInt8 → Bool}
    {target : Nat} (found : p[index]? = some i)
    (jumps : run.machine.execute i = run.machine.jumpIf condition target) :
    run.next = (run.jumpTo ((if condition s.cell then target else index) + 1), none) := by
  rw [here.next_eq found, dispatch, Machine.dispatch, jumps, here.mirrors.jumpIf]
  by_cases taken : condition s.cell <;> simp [taken, Run.jumpTo, Run.setPc, here.pc]

theorem At.next_opening (here : run.At p index s) {close : Nat}
    (found : p[index]? = some (.ofSymbol .loopStart close)) :
    run.next = (run.jumpTo ((if s.cell = 0 then close else index) + 1), none) := by
  have jumps : run.machine.execute (.ofSymbol .loopStart close) =
      run.machine.jumpIf (· == 0) close := rfl
  rw [here.next_jump found jumps]
  simp only [beq_iff_eq]

theorem At.next_closing (here : run.At p index s) {start : Nat}
    (found : p[index]? = some (.ofSymbol .loopEnd start)) :
    run.next = (run.jumpTo ((if s.cell = 0 then index else start) + 1), none) := by
  have jumps : run.machine.execute (.ofSymbol .loopEnd start) =
      run.machine.jumpIf (· != 0) start := rfl
  rw [here.next_jump found jumps]
  by_cases zero : s.cell = 0 <;> simp [zero]

/-- At the end of a loop a run goes on as it would at its beginning: both jumps ask for the same
cell, and a jump leaves nothing of the index it was made from. -/
theorem At.next_closing_eq {start close : Nat} (here : run.At p close s)
    (opens : p[start]? = some (.ofSymbol .loopStart close))
    (closes : p[close]? = some (.ofSymbol .loopEnd start)) :
    run.next = (run.setPc start).next := by
  rw [here.next_closing closes, (here.setPc start).next_opening opens]
  rfl

/-- After some steps a run came to an index, or ended as an interpretation did. -/
def ReachesIn (run : Run) (p : Program) (steps behind : Nat) : Outcome → Prop
  | (t, none) => ∃ last, run.follow steps = (last, none) ∧ last.At p behind t
  | (t, some fault) =>
    ∃ last ending, run.follow steps = (last, some ending) ∧ Agrees (t, some fault) (last, ending)

def Reaches (run : Run) (p : Program) (behind : Nat) (outcome : Outcome) : Prop :=
  ∃ steps, run.ReachesIn p steps behind outcome

theorem Reaches.of_follow {mid : Run} {first behind : Nat} {outcome : Outcome}
    (led : run.follow first = (mid, none)) (reaches : mid.Reaches p behind outcome) :
    run.Reaches p behind outcome := by
  obtain ⟨steps, reached⟩ := reaches
  refine ⟨first + steps, ?_⟩
  rcases outcome with ⟨t, _ | fault⟩
  · obtain ⟨last, follows, there⟩ := reached
    exact ⟨last, (follow_after led steps).trans follows, there⟩
  · obtain ⟨last, ending, follows, agrees⟩ := reached
    exact ⟨last, ending, (follow_after led steps).trans follows, agrees⟩

theorem At.reaches_group (here : run.At p index s) {a : Action} {n : Nat}
    (found : p[index]? = some (.ofSymbol a.symbol n)) :
    run.ReachesIn p 1 (index + 1) (a.performGroup n s) := by
  have room := (here.fits.operand _ (Array.mem_of_getElem? found)).2
  have did := Machine.matches_execute here.mirrors a room
  have step := here.next_eq found
  rw [dispatch, Machine.dispatch] at step
  rcases executed : run.machine.execute (.ofSymbol a.symbol n) with ⟨after, _ | cause⟩ <;>
    rcases performed : a.performGroup n s with ⟨t, _ | fault⟩ <;>
    rw [executed, performed] at did <;> rw [executed] at step
  · obtain ⟨mirrors, program, pc, host⟩ := did
    refine ⟨_, follow_one step, here.untraced, host ▸ here.fits, program.trans here.program, ?_,
      mirrors.setPc _⟩
    simp [pc, here.pc]
  · exact did.elim
  · exact did.elim
  · obtain ⟨ending, shows, reached, cursor⟩ := did
    exact ⟨_, _, follow_succ_of_ending 0 step, ending, shows, reached,
      fun plain => cursor (by simpa using plain)⟩

/-- Runs that go on alike reach alike, unless they are there already. -/
theorem Reaches.of_next_eq {run' : Run} {behind : Nat} {outcome : Outcome}
    (same : run.next = run'.next) (here : run'.At p index s) (distinct : index ≠ behind)
    (reaches : run'.Reaches p behind outcome) : run.Reaches p behind outcome := by
  obtain ⟨_ | steps, reached⟩ := reaches
  · rcases outcome with ⟨t, _ | fault⟩
    · obtain ⟨last, follows, there⟩ := reached
      obtain rfl := (Prod.mk.inj follows).1
      have := here.pc.symm.trans there.pc
      omega
    · obtain ⟨last, ending, follows, -⟩ := reached
      cases follows
  · refine ⟨steps + 1, ?_⟩
    rcases outcome with ⟨t, _ | fault⟩
    · obtain ⟨last, follows, there⟩ := reached
      exact ⟨last, (follow_congr same steps).trans follows, there⟩
    · obtain ⟨last, ending, follows, agrees⟩ := reached
      exact ⟨last, ending, (follow_congr same steps).trans follows, agrees⟩

end Run

namespace Block

variable {p : Program} {b : Block (Action × Nat)} {start : Nat} {run : Run} {s : State}

/-- The index behind the code of a block. -/
def behind (b : Block (Action × Nat)) (start : Nat) : Nat := start + (b.code start).length

theorem behind_action (q : Action × Nat) (rest : Block (Action × Nat)) (start : Nat) :
    (action q rest).behind start = rest.behind (start + 1) := by
  simp [behind, code, Nat.add_assoc, Nat.add_comm 1]

theorem holds_loop {body rest : Block (Action × Nat)}
    (holds : p.Holds start ((loop body rest).code start)) :
    p[start]? = some (.ofSymbol .loopStart (body.behind (start + 1) : Nat)) ∧
    p.Holds (start + 1) (body.code (start + 1)) ∧
    p[body.behind (start + 1)]? = some (.ofSymbol .loopEnd start) ∧
    p.Holds (body.behind (start + 1) + 1) (rest.code (body.behind (start + 1) + 1)) ∧
    (loop body rest).behind start = rest.behind (body.behind (start + 1) + 1) := by
  have close : start + (body.code (start + 1)).length + 1 = body.behind (start + 1) := by
    simp only [behind]
    omega
  have length : (loop body rest).behind start = rest.behind (body.behind (start + 1) + 1) := by
    rw [behind, code, close]
    simp only [behind, List.length_cons, List.length_append]
    omega
  rw [code, close, Program.holds_cons, Program.holds_append, Program.holds_cons] at holds
  obtain ⟨opens, inner, closes, outer⟩ := holds
  exact ⟨opens, inner, closes, outer, length⟩

/-- What a block does in the interpretation its code does in a run. -/
theorem reaches_code {depth : Nat} {outcome : Outcome} (folded : b.Folded)
    (holds : p.Holds start (b.code start)) (here : run.At p start s)
    (ended : b.unfold.interpret depth s = some outcome) :
    run.Reaches p (b.behind start) outcome := by
  induction depth generalizing b start run s outcome with
  | zero => cases ended
  | succ depth ih =>
    cases folded with
    | stop =>
      obtain rfl : (s, none) = outcome := Option.some.inj ended
      exact ⟨0, run, rfl, here⟩
    | @action a n rest positive last tail =>
      obtain ⟨found, tailHolds⟩ := Program.holds_cons.1 holds
      -- The depth may be less than the count, but never less than what is left behind one action.
      have deep := interpret_of_le (Nat.add_le_add_left positive depth) ended
      rw [unfold, interpret_repeated depth s positive (tail.first?_unfold ▸ last)] at deep
      have step := here.reaches_group found
      rcases performed : a.performGroup n s with ⟨t, _ | fault⟩
      · rw [performed] at deep step
        obtain ⟨next, led, there⟩ := step
        rw [behind_action]
        exact .of_follow led (ih tail tailHolds there deep)
      · rw [performed] at deep step
        obtain rfl := Option.some.inj deep
        exact ⟨1, step⟩
    | @loop body rest inner tail =>
      obtain ⟨opens, bodyHolds, closes, restHolds, length⟩ := holds_loop holds
      have opening := here.next_opening opens
      rw [unfold, interpret] at ended
      by_cases zero : s.cell = 0
      · rw [if_pos zero] at ended opening
        rw [length]
        exact .of_follow (Run.follow_one opening) (ih tail restHolds (here.jumpTo _) ended)
      · rw [if_neg zero] at ended opening
        rcases once : body.unfold.interpret depth s with _ | ⟨t, _ | fault⟩
        · simp [once] at ended
        · simp only [once] at ended
          obtain ⟨steps, back, led, there⟩ := ih inner bodyHolds (here.jumpTo _) once
          have again := ih (.loop inner tail) holds (there.setPc start) ended
          have distinct : start ≠ (Block.loop body rest).behind start := by
            simp only [behind, code, List.length_cons]
            omega
          exact .of_follow (Run.follow_one opening) (.of_follow led
            (again.of_next_eq (there.next_closing_eq opens closes) (there.setPc start) distinct))
        · simp only [once] at ended
          obtain rfl := Option.some.inj ended
          obtain ⟨steps, reached⟩ := ih inner bodyHolds (here.jumpTo _) once
          exact .of_follow (Run.follow_one opening) ⟨steps, reached⟩

/-- If a run from the code of a block on ends, then so does the interpretation of the block. Each
round of a loop leaves fewer steps of the run. -/
theorem ends_of_follow {steps : Nat} {last : Run} {ending : Run.Ending} (folded : b.Folded)
    (holds : p.Holds start (b.code start)) (here : run.At p start s)
    (ended : run.follow steps = (last, some ending)) : b.unfold.Ends s := by
  induction steps using Nat.strongRecOn generalizing b start run s with
  | ind steps ih =>
    cases folded with
    | stop => exact ⟨1, _, rfl⟩
    | @action a n rest positive differs tail =>
      obtain ⟨found, tailHolds⟩ := Program.holds_cons.1 holds
      have group (depth : Nat) :=
        interpret_repeated depth s positive (tail.first?_unfold ▸ differs)
      have step := here.reaches_group found
      rcases performed : a.performGroup n s with ⟨t, _ | fault⟩
      · rw [performed] at step
        obtain ⟨next, led, there⟩ := step
        obtain ⟨left, rfl, following⟩ := Run.follow_rest led ended
        obtain ⟨depth, outcome, settled⟩ := ih left (by omega) tail tailHolds there following
        exact ⟨depth + n, outcome, by rw [unfold, group, performed]; exact settled⟩
      · exact ⟨0 + n, (t, some fault), by rw [unfold, group, performed]⟩
    | @loop body rest inner tail =>
      obtain ⟨opens, bodyHolds, closes, restHolds, length⟩ := holds_loop holds
      obtain ⟨left, rfl, following⟩ := Run.follow_rest (Run.follow_one (here.next_opening opens)) ended
      by_cases zero : s.cell = 0
      · rw [if_pos zero] at following
        obtain ⟨depth, outcome, settled⟩ := ih left (by omega) tail restHolds (here.jumpTo _) following
        exact ⟨depth + 1, outcome, by rw [unfold, interpret, if_pos zero]; exact settled⟩
      · rw [if_neg zero] at following
        obtain ⟨depth, ⟨t, _ | fault⟩, settled⟩ :=
          ih left (by omega) inner bodyHolds (here.jumpTo _) following
        · obtain ⟨round, back, led, there⟩ := reaches_code inner bodyHolds (here.jumpTo _) settled
          obtain ⟨_ | left, rfl, onward⟩ := Run.follow_rest led following
          · cases onward
          · rw [Run.follow_congr (there.next_closing_eq opens closes)] at onward
            obtain ⟨depth', outcome, again⟩ :=
              ih (left + 1) (by omega) (.loop inner tail) holds (there.setPc start) onward
            refine ⟨max depth depth' + 1, outcome, ?_⟩
            rw [unfold, interpret, if_neg zero, interpret_of_le (Nat.le_max_left _ _) settled]
            exact interpret_of_le (Nat.le_max_right _ _) again
        · exact ⟨depth + 1, (t, some fault), by rw [unfold, interpret, if_neg zero, settled]⟩

end Block

theorem Agrees.close {outcome : Outcome} {last : Run} {ending : Run.Ending}
    (agrees : Agrees outcome (last, ending)) : Agrees outcome (last.close, ending) where
  ending := agrees.ending
  shows := ⟨agrees.shows.tape, agrees.shows.pending, by simp [Run.close, agrees.shows.output]⟩
  reached := agrees.reached
  cursor := agrees.cursor

namespace Block

variable {b : Block Action} {run : Run} {s : State}

theorem holds_program (b : Block Action) : b.program.Holds 0 (b.fold.code 0) := by
  intro k instruction here
  simpa [program] using here

theorem behind_fold (b : Block Action) : b.fold.behind 0 = b.program.size := by
  simp [behind, program]

theorem complete_of_interpret {depth : Nat} {outcome : Outcome} (here : run.At b.program 0 s)
    (ended : b.interpret depth s = some outcome) :
    ∃ limit result, run.complete limit = some result ∧ Agrees outcome result := by
  have reaches := reaches_code b.folded_fold b.holds_program here (b.unfold_fold.symm ▸ ended)
  rw [behind_fold] at reaches
  obtain ⟨steps, reached⟩ := reaches
  rcases outcome with ⟨t, _ | fault⟩
  · obtain ⟨last, led, there⟩ := reached
    have follows := (Run.follow_after led 1).trans (Run.follow_succ_of_ending 0 there.next_behind)
    have agrees : Agrees (t, none) (last, .finished) :=
      ⟨.finished, there.mirrors.toShows, Nat.le_of_eq there.mirrors.cursor,
        fun _ => there.mirrors.cursor⟩
    exact ⟨steps + 1, _, Run.complete_eq_some_iff.2 ⟨_, _, follows, rfl⟩, agrees.close⟩
  · obtain ⟨last, ending, follows, agrees⟩ := reached
    exact ⟨steps, _, Run.complete_eq_some_iff.2 ⟨_, _, follows, rfl⟩, agrees.close⟩

theorem ends_of_complete {limit : Nat} {result : Run × Run.Ending} (here : run.At b.program 0 s)
    (completed : run.complete limit = some result) : b.Ends s := by
  obtain ⟨last, ending, follows, -⟩ := Run.complete_eq_some_iff.1 completed
  simpa [unfold_fold] using ends_of_follow b.folded_fold b.holds_program here follows

theorem violation?_program
    (short : ∀ n, (Symbol.increment, n) ∈ b.program.pieces ∨ (Symbol.decrement, n) ∈ b.program.pieces →
      n < Machine.operandLimit) : Machine.violation? b.program = none := by
  rw [Machine.violation?, List.find?_eq_none]
  rintro ⟨i, k⟩ member
  have inside : i ∈ b.program := by
    have := List.mem_zipIdx_iff_getElem?.1 member
    exact Array.mem_of_getElem? (by simpa using this)
  obtain ⟨⟨symbol, n⟩, found, piece⟩ := exists_piece inside
  obtain ⟨is, count⟩ := Instruction.piece?_eq_some_iff.1 piece
  have limit : symbol = .increment ∨ symbol = .decrement → n < Machine.operandLimit := by
    rintro (rfl | rfl)
    · exact short n (.inl found)
    · exact short n (.inr found)
  cases symbol <;> simp [Machine.exceedsLimit, is, Opcode.ofSymbol, Symbol.bracket?] at limit count ⊢ <;>
    omega

end Block

theorem lt_of_not_infix {symbols : List Symbol} {symbol : Symbol} {n limit : Nat}
    (short : ¬ List.replicate limit symbol <:+: symbols)
    (member : (symbol, n) ∈ stretches Symbol.joins symbols) : n < limit := by
  by_contra long
  obtain ⟨more, rfl⟩ := Nat.exists_eq_add_of_le (Nat.le_of_not_lt long)
  have whole := replicate_infix_of_mem Symbol.eq_of_joins member
  rw [List.replicate_add] at whole
  exact short ((List.prefix_append _ _).isInfix.trans whole)

/-- Assembling and running refines the interpretation of the bracket tree: on the same tape and
input both end or neither does, and if they end, they end in the same way with the same tape, output
and unread input. The host has to have room for the tape and for as much as the source has symbols.
-/
theorem run_refines_interpretation {host : Host} {source : Source} (balanced : Balanced source.brackets)
    (increments : ¬ List.replicate 255 .increment <:+: source.symbols)
    (decrements : ¬ List.replicate 255 .decrement <:+: source.symbols)
    (fits : host.shortage? source.symbols.length = none) {size : Nat} (positive : 0 < size)
    (room : host.shortage? size = none) (input : List UInt8) :
    ∃ block program machine,
      Block.ofSymbols? source.symbols = some block ∧
      Program.ofSource source = .ok program ∧
      Machine.load host program size (Console.ofBytes input) = .ok machine ∧
      ((∃ depth outcome, block.interpret depth (.initial size positive input) = some outcome) ↔
        ∃ limit result, (machine.start 0).complete limit = some result) ∧
      ∀ depth outcome limit result,
        block.interpret depth (.initial size positive input) = some outcome →
        (machine.start 0).complete limit = some result → Agrees outcome result := by
  obtain ⟨block, found⟩ := Block.exists_ofSymbols? balanced
  have spelled := Block.ofSymbols?_eq_some_iff.1 found
  have accepted := Program.ofSource_of_symbols spelled
  have pieces : block.program.pieces = stretches Symbol.joins source.symbols := by
    rw [block.pieces_program, ← block.stretches_symbols, spelled]
  have checked : Machine.violation? block.program = none := by
    refine Block.violation?_program fun n member => ?_
    rw [pieces] at member
    rcases member with member | member
    · exact lt_of_not_infix increments member
    · exact lt_of_not_infix decrements member
  let machine : Machine :=
    { program := block.program, tape := Tape.blank size, console := Console.ofBytes input, host }
  have loaded : Machine.load host block.program size (Console.ofBytes input) = .ok machine :=
    Machine.load_eq_ok_iff.2 ⟨by omega, room, checked, rfl⟩
  have here : (machine.start 0).At block.program 0 (.initial size positive input) :=
    ⟨rfl, Program.fits_of_source accepted fits, rfl, rfl, ⟨rfl, rfl, rfl⟩, rfl⟩
  refine ⟨block, block.program, machine, found, accepted, loaded, ⟨?_, ?_⟩, ?_⟩
  · rintro ⟨depth, outcome, ended⟩
    obtain ⟨limit, result, completed, -⟩ := Block.complete_of_interpret here ended
    exact ⟨limit, result, completed⟩
  · rintro ⟨limit, result, completed⟩
    exact Block.ends_of_complete here completed
  · intro depth outcome limit result ended completed
    obtain ⟨limit', result', completed', agrees⟩ := Block.complete_of_interpret here ended
    rw [Run.complete_unique completed completed']
    exact agrees

/-- Two inputs with a comment between them read one byte, and the second round leaves the tape. -/
theorem run_refines_interpretation_overflow :
    let source : Source := .bytes [0x2c, 0x20, 0x2c, 0x5b, 0x3e, 0x2c, 0x5d]
    Balanced source.brackets ∧ ¬ List.replicate 255 .increment <:+: source.symbols ∧
      ¬ List.replicate 255 .decrement <:+: source.symbols ∧
      Host.shortage? {} source.symbols.length = none ∧ Host.shortage? {} (2 : Nat) = none ∧
      ∃ program machine limit result,
        Program.ofSource source = .ok program ∧
        Machine.load {} program (2 : Nat) (Console.ofBytes [7, 8, 9]) = .ok machine ∧
        (machine.start 0).complete limit = some result ∧
        SameEnding (some .tape) result.2 ∧ result.1.machine.tape = #[7, 8] := by
  intro source
  let inner : Block Action := .loop (.action .moveRight (.action .input .stop)) .stop
  let whole : Block Action := .action .input (.action .input inner)
  have spelled : whole.symbols = source.symbols := rfl
  have balanced : Balanced source.brackets := by
    rw [Source.brackets, ← spelled, Block.brackets_symbols]
    exact whole.balanced_brackets
  have absent (symbol : Symbol) : ¬ List.replicate 255 symbol <:+: source.symbols := by
    intro long
    have length := long.length_le
    rw [List.length_replicate, ← spelled] at length
    exact absurd length (by decide)
  have fits : Host.shortage? {} source.symbols.length = none := rfl
  have room : Host.shortage? {} (2 : Nat) = none := rfl
  obtain ⟨block, program, machine, found, accepted, loaded, ends, agrees⟩ :=
    run_refines_interpretation balanced (absent _) (absent _) fits Nat.two_pos room [7, 8, 9]
  obtain rfl : whole = block := by
    rw [← spelled, Block.ofSymbols?_symbols] at found
    exact Option.some.inj found
  have interpreted : ∃ t : State, t.tape = #[7, 8] ∧
      whole.interpret 9 (.initial 2 Nat.two_pos [7, 8, 9]) = some (t, some .tape) := ⟨_, rfl, rfl⟩
  obtain ⟨t, tape, settled⟩ := interpreted
  obtain ⟨limit, result, completed⟩ := ends.1 ⟨9, _, settled⟩
  have same := agrees 9 _ limit result settled completed
  exact ⟨balanced, absent _, absent _, fits, room, program, machine, limit, result, accepted, loaded,
    completed, same.ending, same.shows.tape.trans tape⟩

end TapeVM
