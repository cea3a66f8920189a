import TapeVM.Proofs.Blame
import TapeVM.Proofs.Canonical

/-! Acceptance: which sources are loaded, and why others are not. A program is checked instruction
by instruction when it has been assembled; here the verdict is told from the source, by its brackets
and by its longest runs of one symbol, each of which becomes one instruction. -/
namespace TapeVM

open Nesting

/-- A longest run of increments or decrements that is too long for one instruction, between what
stands in front of it and what stands behind it. -/
structure Overlong (symbols before : List Symbol) (symbol : Symbol) (length : Nat)
    (after : List Symbol) : Prop where
  split : symbols = before ++ (List.replicate length symbol ++ after)
  changes : symbol = .increment ∨ symbol = .decrement
  long : 255 ≤ length
  starts : before.getLast? ≠ some symbol
  stops : after.head? ≠ some symbol

structure FirstOverlong (symbols before : List Symbol) (symbol : Symbol) (length : Nat)
    (after : List Symbol) : Prop extends Overlong symbols before symbol length after where
  first : ∀ before' symbol' length' after', Overlong symbols before' symbol' length' after' →
    before.length ≤ before'.length

/-- A stretch that makes an instruction with too large an operand. -/
def Excessive (piece : Symbol × Nat) : Prop :=
  (piece.1 = .increment ∨ piece.1 = .decrement) ∧ 255 ≤ piece.2

variable {symbols before after : List Symbol} {symbol : Symbol} {length : Nat}

theorem Symbol.joins_of_changes (changes : symbol = .increment ∨ symbol = .decrement)
    (other : Symbol) : other.joins symbol = symbol.joins other ∧
      (symbol.joins other ↔ other = symbol) := by
  rcases changes with rfl | rfl <;> cases other <;> decide

theorem Overlong.stretches_eq (overlong : Overlong symbols before symbol length after) :
    stretches Symbol.joins symbols = stretches Symbol.joins before ++
      (symbol, length) :: stretches Symbol.joins after := by
  obtain ⟨rfl, changes, long, starts, stops⟩ := overlong
  obtain ⟨n, rfl⟩ := Nat.exists_eq_add_of_le' (Nat.le_trans (by decide : 1 ≤ 255) long)
  have joins := Symbol.joins_of_changes changes
  have same : symbol.joins symbol := (joins symbol).2.2 rfl
  rw [stretches_append, stretches_append, stretches_replicate]
  · rfl
  · simp [same]
  · intro x last y first
    obtain rfl : symbol = x := by simpa [List.getLast?_replicate] using last
    refine Bool.eq_false_iff.2 fun joined => stops ?_
    rw [← (joins y).2.1 joined]
    exact first
  · intro x last y first
    obtain rfl : symbol = y := by simpa [List.replicate_succ] using first
    refine Bool.eq_false_iff.2 fun joined => starts ?_
    rw [(joins x).1] at joined
    rw [← (joins x).2.1 joined]
    exact last

theorem overlong_of_stretch {front rest : List (Symbol × Nat)}
    (cut : stretches Symbol.joins symbols = front ++ (symbol, length) :: rest)
    (excessive : Excessive (symbol, length)) :
    Overlong symbols (unstretch front) symbol length (unstretch rest) := by
  obtain ⟨changes, long⟩ := excessive
  have joins := Symbol.joins_of_changes changes
  have maximal := maximal_stretches Symbol.eq_of_joins symbols
  rw [cut] at maximal
  obtain ⟨-, behind, between⟩ := List.isChain_append.1 maximal.apart
  refine ⟨?_, changes, long, ?_, ?_⟩
  · rw [← unstretch_cons, ← unstretch_append, ← cut, unstretch_stretches Symbol.eq_of_joins]
  · rw [getLast?_unstretch maximal.front.positive]
    intro last
    obtain ⟨⟨x, n⟩, here, rfl⟩ := Option.map_eq_some_iff.1 last
    have apart := between _ here _ rfl
    simp [(joins _).2.2 rfl] at apart
  · rw [head?_unstretch maximal.behind.tail.positive]
    intro first
    obtain ⟨⟨x, n⟩, here, rfl⟩ := Option.map_eq_some_iff.1 first
    obtain ⟨rest, rfl⟩ := List.head?_eq_some_iff.1 here
    have apart := (List.isChain_cons_cons.1 behind).1
    simp [(joins _).2.2 rfl] at apart

/-- The first stretch that is too long is the first run that is. -/
theorem firstOverlong_of_stretch {front rest : List (Symbol × Nat)}
    (cut : stretches Symbol.joins symbols = front ++ (symbol, length) :: rest)
    (excessive : Excessive (symbol, length)) (clean : ∀ piece ∈ front, ¬ Excessive piece) :
    FirstOverlong symbols (unstretch front) symbol length (unstretch rest) := by
  refine ⟨overlong_of_stretch cut excessive, fun before' symbol' length' after' other => ?_⟩
  have both := other.stretches_eq.symm.trans cut
  have beyond : front.length ≤ (stretches Symbol.joins before').length := by
    -- Otherwise the stretch of the other run would stand among those that are short enough.
    by_contra less
    have member : (symbol', length') ∈ front := by
      apply List.mem_of_getElem? (i := (stretches Symbol.joins before').length)
      rw [← List.getElem?_append_left (Nat.lt_of_not_le less), ← both]
      simp
    exact clean _ member ⟨other.changes, other.long⟩
  have shorter : front <+: stretches Symbol.joins before' :=
    List.prefix_of_prefix_length_le (List.prefix_append _ _) (both ▸ List.prefix_append _ _) beyond
  obtain ⟨more, split⟩ := shorter
  have whole := unstretch_stretches Symbol.eq_of_joins before'
  rw [← split, unstretch_append] at whole
  rw [← whole, List.length_append]
  exact Nat.le_add_right _ _

theorem Overlong.exists_first (overlong : Overlong symbols before symbol length after) :
    ∃ before' symbol' length' after', FirstOverlong symbols before' symbol' length' after' := by
  -- By induction on where the run stands: an earlier one takes its place.
  induction place : before.length using Nat.strong_induction_on
    generalizing before symbol length after with
  | _ _ ih =>
    by_cases least : ∀ before' symbol' length' after',
        Overlong symbols before' symbol' length' after' → before.length ≤ before'.length
    · exact ⟨before, symbol, length, after, overlong, least⟩
    · push Not at least
      obtain ⟨before', symbol', length', after', earlier, less⟩ := least
      exact ih before'.length (place ▸ less) earlier rfl

theorem FirstOverlong.unique {before' after' : List Symbol} {symbol' : Symbol} {length' : Nat}
    (one : FirstOverlong symbols before symbol length after)
    (other : FirstOverlong symbols before' symbol' length' after') :
    before = before' ∧ symbol = symbol' ∧ length = length' := by
  have together : before.length = before'.length :=
    Nat.le_antisymm (one.first _ _ _ _ other.toOverlong) (other.first _ _ _ _ one.toOverlong)
  obtain ⟨rfl, -⟩ := List.append_inj (one.split.symm.trans other.split) together
  have behind := List.append_cancel_left (one.stretches_eq.symm.trans other.stretches_eq)
  obtain ⟨same, -⟩ := List.cons.inj behind
  exact ⟨rfl, Prod.mk.inj same⟩

theorem Machine.exceedsLimit_iff {i : Instruction} {piece : Symbol × Nat}
    (found : i.piece? = some piece) : exceedsLimit i ↔ Excessive piece := by
  obtain ⟨symbol, length⟩ := piece
  obtain ⟨is, rfl⟩ := Instruction.piece?_eq_some_iff.1 found
  cases symbol <;>
    simp [exceedsLimit, Excessive, is, Opcode.ofSymbol, operandLimit, Symbol.bracket?] <;>
    exact decide_eq_true_iff.trans (by omega)

theorem Instruction.eq_of_excessive {i : Instruction} (found : i.piece? = some (symbol, length))
    (excessive : Excessive (symbol, length)) : i = .ofSymbol symbol length := by
  obtain ⟨is, count⟩ := piece?_eq_some_iff.1 found
  obtain ⟨changes, long⟩ := excessive
  have plain : symbol.bracket? = none := by rcases changes with rfl | rfl <;> rfl
  rw [if_pos plain] at count
  obtain ⟨op, operand⟩ := i
  obtain rfl : op = .ofSymbol symbol := is
  exact congrArg (Instruction.mk _) (by dsimp only at *; omega)

/-- The instruction that fails the check is that of the first stretch that is too long. -/
theorem Block.exists_excessive {b : Block Action} {i : Instruction} {index : Nat}
    (found : Machine.violation? b.program = some (i, index)) :
    ∃ front symbol length rest,
      stretches Symbol.joins b.symbols = front ++ (symbol, length) :: rest ∧
      Excessive (symbol, length) ∧ (∀ piece ∈ front, ¬ Excessive piece) ∧
      i = .ofSymbol symbol length ∧ index = front.length := by
  obtain ⟨exceeds, earlier, later, split, clean⟩ := List.find?_eq_some_iff_append.1 found
  obtain ⟨before, behind, program, rfl, numbered⟩ := List.zipIdx_eq_append_iff.1 split
  obtain ⟨j, after, rfl, here, -⟩ := List.zipIdx_eq_cons_iff.1 numbered.symm
  obtain ⟨rfl, rfl⟩ := Prod.mk.inj here
  have spelled := b.map_piece?_program
  rw [program, List.map_append, List.map_cons, pieces_program, ← stretches_symbols] at spelled
  obtain ⟨front, tail, cut, front_eq, tail_eq⟩ := List.map_eq_append_iff.1 spelled.symm
  obtain ⟨⟨symbol, length⟩, rest, rfl, piece, -⟩ := List.map_eq_cons_iff.1 tail_eq
  have excessive := (Machine.exceedsLimit_iff piece.symm).1 exceeds
  refine ⟨front, symbol, length, rest, cut, excessive, ?_, ?_, ?_⟩
  · intro other member
    obtain ⟨k, inside, piece'⟩ := List.mem_map.1 (front_eq ▸ List.mem_map_of_mem member)
    obtain ⟨n, stands⟩ := List.mem_iff_getElem?.1 inside
    have short := clean (k, n) (List.mk_mem_zipIdx_iff_getElem?.2 stands)
    rw [← Machine.exceedsLimit_iff piece']
    simpa using short
  · exact Instruction.eq_of_excessive piece.symm excessive
  · simpa using (congrArg List.length front_eq).symm

theorem Block.violation?_eq_none_iff {b : Block Action} :
    Machine.violation? b.program = none ↔
      ∀ before symbol length after, ¬ Overlong b.symbols before symbol length after := by
  constructor
  · intro passed before symbol length after overlong
    have member : (symbol, length) ∈ b.program.pieces := by
      rw [pieces_program, ← stretches_symbols, overlong.stretches_eq]
      simp
    obtain ⟨i, here, piece⟩ := List.mem_filterMap.1 member
    obtain ⟨index, stands⟩ := List.mem_iff_getElem?.1 here
    have short := List.find?_eq_none.1 passed (i, index) (List.mk_mem_zipIdx_iff_getElem?.2 stands)
    exact short ((Machine.exceedsLimit_iff piece).2 ⟨overlong.changes, overlong.long⟩)
  · intro short
    cases found : Machine.violation? b.program with
    | none => rfl
    | some violation =>
      obtain ⟨front, symbol, length, rest, cut, excessive, -⟩ := exists_excessive found
      exact (short _ _ _ _ (overlong_of_stretch cut excessive)).elim

theorem Block.violation?_of_firstOverlong {b : Block Action}
    (first : FirstOverlong b.symbols before symbol length after) :
    Machine.violation? b.program =
      some (.ofSymbol symbol length, (stretches Symbol.joins before).length) := by
  cases found : Machine.violation? b.program with
  | none => exact (violation?_eq_none_iff.1 found _ _ _ _ first.toOverlong).elim
  | some violation =>
    obtain ⟨front, symbol', length', rest, cut, excessive, clean, is, index⟩ :=
      exists_excessive found
    obtain ⟨rfl, rfl, rfl⟩ := (firstOverlong_of_stretch cut excessive clean).unique first
    have maximal := maximal_stretches Symbol.eq_of_joins b.symbols
    rw [cut] at maximal
    rw [stretches_unstretch maximal.front, ← is, ← index]

theorem Machine.load_of_shortage {host : Host} {tapeSize : Int} {cause : Host.Shortage}
    (positive : 1 ≤ tapeSize) (short : host.shortage? tapeSize = some cause) (program : Program)
    (console : Console) : load host program tapeSize console = .error (.shortage cause) := by
  simp only [load, if_neg (Int.not_lt.2 positive), short]

theorem Machine.load_of_violation {host : Host} {program : Program} {tapeSize : Int}
    {i : Instruction} {index : Nat} (positive : 1 ≤ tapeSize)
    (room : host.shortage? tapeSize = none) (found : violation? program = some (i, index))
    (console : Console) :
    load host program tapeSize console = .error (.operandOutOfRange i index) := by
  simp only [load, if_neg (Int.not_lt.2 positive), room, found]

theorem Decimal.natural_limit : natural 255 = "255" := by
  rw [natural, digits, digits, digits]
  rfl

theorem Machine.message_operandOutOfRange (changes : symbol = .increment ∨ symbol = .decrement)
    (length index : Nat) :
    (LoadError.operandOutOfRange (.ofSymbol symbol length) index).message =
      "operand out of range: Add and Sub instructions must have data less than 255, got " ++
        ((if symbol = .increment then "Add" else "Sub") ++ "(" ++ Decimal.natural length ++ ")") ++
        " at index " ++ Decimal.natural index := by
  have limit : Decimal.natural operandLimit = "255" := Decimal.natural_limit
  have call : (Instruction.ofSymbol symbol length).call?.getD "" =
      (if symbol = .increment then "Add" else "Sub") ++ "(" ++ Decimal.natural length ++ ")" := by
    rcases changes with rfl | rfl <;> rfl
  unfold LoadError.message
  simp only [limit, call, String.reduceAppend]

namespace Engine

/-- A source is neither loaded nor run, whatever the streams are, and for the same reason: no
machine is made that could ask anything of the streams, and no step is counted. -/
def Refuses (engine : Engine) (source : Source) (file : Option String) (tapeSize : Option Int)
    (failure : Failure) : Prop :=
  ∃ cause : Failure, cause.raised engine.host = failure ∧
    (∀ console, engine.load source file tapeSize console = .error cause) ∧
    ∀ limit console verbosity stats,
      engine.run limit source file tapeSize console verbosity stats = some (.error cause, stats)

variable {engine : Engine} {source : Source} {file : Option String} {tapeSize : Option Int}
  {failure : Failure}

theorem refuses_of_load
    (refused : ∀ console, engine.load source file tapeSize console = .error failure) :
    engine.Refuses source file tapeSize (failure.raised engine.host) :=
  ⟨failure, rfl, refused, fun limit console verbosity stats => by simp [run, refused]⟩

theorem refuses_overlong
    (refuses : engine.Refuses source file tapeSize (failure.raised engine.host))
    (unwritten : ¬ ∀ n ∈ failure.numbers, engine.host.Writes n) :
    ∃ limit, engine.host.digits = some limit ∧
      engine.Refuses source file tapeSize (.overlong limit) := by
  obtain ⟨limit, limited, raised⟩ := Failure.exists_raised_eq_overlong unwritten
  exact ⟨limit, limited, raised ▸ refuses⟩

theorem refuses_of_compile (refused : compile source file = .error failure) :
    engine.Refuses source file tapeSize (failure.raised engine.host) :=
  refuses_of_load fun console => by simp [load, refused]

variable {program : Program}

theorem refuses_of_check (compiled : compile source file = .ok program) {e : Machine.LoadError}
    (refused : ∀ console,
      Machine.load engine.host program (tapeSize.getD engine.tapeSize) console = .error e) :
    engine.Refuses source file tapeSize ((Failure.loading e).raised engine.host) :=
  refuses_of_load fun console => by simp [load, compiled, refused, Except.mapError]

theorem load_eq_ok_iff {console : Console} {machine : Machine} :
    engine.load source file tapeSize console = .ok machine ↔ ∃ program,
      compile source file = .ok program ∧
      Machine.load engine.host program (tapeSize.getD engine.tapeSize) console = .ok machine := by
  rw [load]
  cases compile source file with
  | error failure => simp
  | ok program =>
    cases loaded : Machine.load engine.host program (tapeSize.getD engine.tapeSize) console <;>
      simp [loaded, Except.mapError]

theorem compile_eq_ok_iff : compile source file = .ok program ↔
    ∃ b : Block Action, b.symbols = source.symbols ∧ program = b.program := by
  rw [← Program.ofSource_eq_ok_iff, compile]
  cases Program.ofSource source <;> simp [Except.mapError]

end Engine

theorem Engine.exists_compiled {source : Source} (balanced : Balanced source.brackets)
    (file : Option String) :
    ∃ b : Block Action, b.symbols = source.symbols ∧ compile source file = .ok b.program := by
  obtain ⟨b, found⟩ := Block.exists_ofSymbols? balanced
  have spelled := Block.ofSymbols?_eq_some_iff.1 found
  exact ⟨b, spelled, compile_eq_ok_iff.2 ⟨b, spelled, rfl⟩⟩

theorem Block.balanced_of_symbols {source : Source} {b : Block Action}
    (spelled : b.symbols = source.symbols) : Balanced source.brackets := by
  have levels := b.balanced_brackets
  rwa [← brackets_symbols, spelled] at levels

/-- Which sources are loaded, and why the others are refused. A source is loaded exactly if its
brackets are balanced, the tape has a cell, the host has room for it, and no longest run of
increments or decrements has 255 symbols or more. The reasons to refuse it come in that order; a run
that is too long is named by its operation, its length and the number of instructions in front of
it, one for each longest run or bracket. A reason with a number that the host cannot write gives way
to the limit on digits. -/
theorem load_verdict (engine : Engine) (source : Source) (file : Option String)
    (tapeSize : Option Int) :
    let size := tapeSize.getD engine.tapeSize
    (∀ console, (∃ machine, engine.load source file tapeSize console = .ok machine) ↔
      Balanced source.brackets ∧ 1 ≤ size ∧ engine.host.shortage? size = none ∧
        ∀ before symbol length after, ¬ Overlong source.symbols before symbol length after) ∧
    (¬ Balanced source.brackets → ∃ failure message mark,
      Engine.compile source file = .error failure ∧
      (failure.diagnostic? = some (.parse message file mark) ∨ ∃ unclosed : Int,
        failure.diagnostic? = some (.incomplete message file mark (some unclosed))) ∧
      ((∀ n ∈ failure.numbers, engine.host.Writes n) →
        engine.Refuses source file tapeSize failure) ∧
      ((¬ ∀ n ∈ failure.numbers, engine.host.Writes n) → ∃ limit,
        engine.host.digits = some limit ∧
        engine.Refuses source file tapeSize (.overlong limit))) ∧
    (Balanced source.brackets → size < 1 →
      (engine.host.Writes size → ∃ failure, engine.Refuses source file tapeSize failure ∧
        failure.diagnostic? =
          some (.value ("tape size must be at least 1 cell, got " ++ Decimal.integer size) none)) ∧
      (¬ engine.host.Writes size → ∃ limit, engine.host.digits = some limit ∧
        engine.Refuses source file tapeSize (.overlong limit))) ∧
    (Balanced source.brackets → 1 ≤ size → ∀ cause, engine.host.shortage? size = some cause →
      engine.Refuses source file tapeSize (.loading (.shortage cause))) ∧
    (Balanced source.brackets → 1 ≤ size → engine.host.shortage? size = none →
      ∀ before symbol length after, FirstOverlong source.symbols before symbol length after →
      let index := (stretches Symbol.joins before).length
      (engine.host.Writes length ∧ engine.host.Writes index → ∃ failure,
        engine.Refuses source file tapeSize failure ∧
        failure.diagnostic? = some (.value
          ("operand out of range: Add and Sub instructions must have data less than 255, got " ++
            ((if symbol = .increment then "Add" else "Sub") ++ "(" ++ Decimal.natural length ++ ")") ++
            " at index " ++ Decimal.natural index) none)) ∧
      (¬ (engine.host.Writes length ∧ engine.host.Writes index) → ∃ limit,
        engine.host.digits = some limit ∧
        engine.Refuses source file tapeSize (.overlong limit))) ∧
    ((∃ before symbol length after, Overlong source.symbols before symbol length after) →
      ∃ before symbol length after, FirstOverlong source.symbols before symbol length after) := by
  intro size
  refine ⟨?_, ?_, ?_, ?_, ?_, ?_⟩
  · intro console
    constructor
    · rintro ⟨machine, loaded⟩
      obtain ⟨program, compiled, made⟩ := Engine.load_eq_ok_iff.1 loaded
      obtain ⟨b, spelled, rfl⟩ := Engine.compile_eq_ok_iff.1 compiled
      obtain ⟨positive, room, passed, -⟩ := Machine.load_eq_ok_iff.1 made
      exact ⟨Block.balanced_of_symbols spelled, positive, room,
        spelled ▸ Block.violation?_eq_none_iff.1 passed⟩
    · rintro ⟨balanced, positive, room, short⟩
      obtain ⟨b, spelled, compiled⟩ := Engine.exists_compiled balanced file
      have passed := Block.violation?_eq_none_iff.2 (spelled.symm ▸ short)
      exact ⟨_, Engine.load_eq_ok_iff.2
        ⟨_, compiled, Machine.load_eq_ok_iff.2 ⟨positive, room, passed, rfl⟩⟩⟩
  · intro unbalanced
    cases compiled : Engine.compile source file with
    | ok program =>
      obtain ⟨b, spelled, -⟩ := Engine.compile_eq_ok_iff.1 compiled
      exact (unbalanced (Block.balanced_of_symbols spelled)).elim
    | error failure =>
      obtain ⟨message, mark, diagnostic⟩ := Engine.diagnostic?_of_compile compiled
      have refuses : engine.Refuses source file tapeSize (failure.raised engine.host) :=
        Engine.refuses_of_compile compiled
      exact ⟨failure, message, mark, rfl, diagnostic,
        fun written => Failure.raised_of_writes written ▸ refuses, Engine.refuses_overlong refuses⟩
  · intro balanced small
    obtain ⟨b, spelled, compiled⟩ := Engine.exists_compiled balanced file
    have refuses : engine.Refuses source file tapeSize
        ((Failure.loading (.tapeSize size)).raised engine.host) :=
      Engine.refuses_of_check compiled fun console => if_pos small
    have numbers : (∀ n ∈ (Failure.loading (.tapeSize size)).numbers, engine.host.Writes n) ↔
        engine.host.Writes size := by
      simp [Failure.numbers, Machine.LoadError.numbers]
    rw [← numbers]
    exact ⟨fun written => ⟨_, Failure.raised_of_writes written ▸ refuses, rfl⟩,
      Engine.refuses_overlong refuses⟩
  · intro balanced positive cause short
    obtain ⟨b, spelled, compiled⟩ := Engine.exists_compiled balanced file
    have raised : (Failure.loading (.shortage cause)).raised engine.host =
        .loading (.shortage cause) :=
      Failure.raised_of_writes (by simp [Failure.numbers, Machine.LoadError.numbers])
    rw [← raised]
    exact Engine.refuses_of_check compiled (Machine.load_of_shortage positive short b.program)
  · intro balanced positive room before symbol length after first index
    obtain ⟨b, spelled, compiled⟩ := Engine.exists_compiled balanced file
    have found := Block.violation?_of_firstOverlong (spelled.symm ▸ first)
    have refuses : engine.Refuses source file tapeSize
        ((Failure.loading (.operandOutOfRange (.ofSymbol symbol length) index)).raised engine.host) :=
      Engine.refuses_of_check compiled (Machine.load_of_violation positive room found)
    have numbers : (∀ n ∈ (Failure.loading (.operandOutOfRange (.ofSymbol symbol length)
        index)).numbers, engine.host.Writes n) ↔
        engine.host.Writes length ∧ engine.host.Writes index := by
      simp [Failure.numbers, Machine.LoadError.numbers, Instruction.ofSymbol]
    rw [← numbers]
    refine ⟨fun written => ⟨_, Failure.raised_of_writes written ▸ refuses, ?_⟩,
      Engine.refuses_overlong refuses⟩
    simp only [Failure.diagnostic?, Failure.message,
      Machine.message_operandOutOfRange first.changes, index]
  · rintro ⟨before, symbol, length, after, overlong⟩
    exact overlong.exists_first

/-- A source that is balanced, without any run, and a tape of some cells are not enough to be
loaded. -/
theorem huge_tape_is_refused :
    let source : Source := .text ""
    let size : Int := 9223372036854775808
    Balanced source.brackets ∧ 1 ≤ size ∧
      (∀ before symbol length after, ¬ Overlong source.symbols before symbol length after) ∧
      Engine.Refuses {} source none (some size) (.loading (.shortage .index)) ∧
      (Failure.loading (.shortage .index)).diagnostic? = none := by
  intro source size
  refine ⟨balanced_nil, by decide, fun before symbol length after overlong => ?_, ?_, rfl⟩
  · have short := congrArg List.length overlong.split
    have long := overlong.long
    rw [List.length_append, List.length_append, List.length_replicate] at short
    exact absurd short (by rw [show source.symbols.length = 0 from rfl]; omega)
  · have raised : (Failure.loading (.shortage .index)).raised {} = .loading (.shortage .index) :=
      Failure.raised_of_writes (by simp [Failure.numbers, Machine.LoadError.numbers])
    have balanced : Balanced source.brackets := balanced_nil
    obtain ⟨b, -, compiled⟩ := Engine.exists_compiled balanced none
    rw [← raised]
    exact Engine.refuses_of_check compiled
      (Machine.load_of_shortage (by decide) rfl b.program)

/-- Comments do not split a run: a loop of 255 increments is refused for them, and the two
instructions in front of them are counted. -/
theorem load_verdict_comments :
    let source : Source :=
      .bytes (0x2d :: 0x5b :: ((List.replicate 255 [0x2b, 0x20]).flatten ++ [0x5d]))
    ∃ failure, Engine.Refuses {} source none none failure ∧
      failure.diagnostic? = some (.value ("operand out of range: Add and Sub instructions must " ++
        "have data less than 255, got Add(255) at index 2") none) := by
  intro source
  -- The number stays a name, lest the run be written out.
  obtain ⟨n, is⟩ : ∃ n, n = 255 := ⟨_, rfl⟩
  have symbols : source.symbols =
      [.decrement, .loopStart] ++ (List.replicate n .increment ++ [.loopEnd]) := by
    have read : Symbol.ofByte? 0x2d = some .decrement ∧ Symbol.ofByte? 0x5b = some .loopStart ∧
        [0x2b, 0x20].filterMap Symbol.ofByte? = [.increment] ∧
        Symbol.ofByte? 0x5d = some .loopEnd := by decide
    simp only [source, ← is]
    simp [Source.symbols, Source.toBytes, List.filterMap_flatten, read]
  have balanced : Balanced source.brackets := by
    have inside (k : Nat) : Balanced (List.replicate k none) := by
      induction k with
      | zero => exact balanced_nil
      | succ k ih => exact balanced_none_cons.2 ih
    rw [Source.brackets, symbols]
    simpa [Symbol.bracket?] using balanced_none_cons.2 (inside n).enclose
  have first : FirstOverlong source.symbols [.decrement, .loopStart] .increment n [.loopEnd] := by
    refine ⟨⟨symbols, .inl rfl, Nat.le_of_eq is.symm, by decide, by decide⟩, ?_⟩
    intro before symbol length after other
    by_contra less
    have second : source.symbols[1]? = some symbol := by
      have long := other.long
      have near : before.length ≤ 1 := Nat.le_of_lt_succ (Nat.lt_of_not_le less)
      rw [other.split, List.getElem?_append_right near,
        List.getElem?_append_left (by simp only [List.length_replicate]; omega)]
      exact List.getElem?_replicate_of_lt (by omega)
    obtain rfl : Symbol.loopStart = symbol := by simpa [symbols] using second
    cases other.changes <;> contradiction
  have written : Host.Writes {} n ∧
      Host.Writes {} (stretches Symbol.joins [.decrement, .loopStart]).length :=
    ⟨Host.writes_of_natAbs_le (by rw [is]; decide), Host.writes_of_natAbs_le (by decide)⟩
  obtain ⟨failure, refused, told⟩ :=
    ((load_verdict {} source none none).2.2.2.2.1 balanced (by decide) rfl _ _ _ _ first).1 written
  refine ⟨failure, refused, told.trans ?_⟩
  have index : Decimal.natural 2 = "2" := by
    rw [Decimal.natural, Decimal.digits]
    rfl
  have pieces : (stretches Symbol.joins [.decrement, .loopStart]).length = 2 := rfl
  simp only [pieces, is, Decimal.natural_limit, index, if_pos, String.reduceAppend]

end TapeVM
