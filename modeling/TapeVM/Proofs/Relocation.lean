import TapeVM.Proofs.Canonical

/-! Relocation: moving code to another index. Assembly is compositional up to relocation. Tokens
that follow others are assembled to the code they have alone, moved behind the code before it, where
only a run that goes on across the seam is one instruction instead of two; and a loop is the code of
its body between two jumps. -/
namespace TapeVM

/-- A jump with a distance added to its target, and any other instruction as it is. -/
def Instruction.relocate (d : Int) (i : Instruction) : Instruction :=
  if i.op.bracket? = none then i else { i with operand := i.operand + d }

def Program.relocate (d : Int) (p : Program) : Program := p.map (Instruction.relocate d)

/-- No run goes on from one token list into the next: one of them is empty, or the neighbours differ
or are brackets. -/
def Token.Apart (before behind : List Token) : Prop :=
  ∀ x ∈ before.getLast?, ∀ y ∈ behind.head?, x.joins y = false

instance (before behind : List Token) : Decidable (Token.Apart before behind) :=
  inferInstanceAs (Decidable (∀ x ∈ before.getLast?, ∀ y ∈ behind.head?, x.joins y = false))

theorem Token.Apart.of_append {before middle behind : List Token}
    (apart : Token.Apart (before ++ middle) behind) : Token.Apart middle behind := by
  intro x last
  refine apart x ?_
  rw [List.getLast?_append, Option.mem_def.1 last]
  rfl

@[simp] theorem Instruction.op_relocate (d : Int) (i : Instruction) : (i.relocate d).op = i.op := by
  unfold relocate
  split <;> rfl

theorem Instruction.relocate_of_plain {i : Instruction} (plain : i.op.bracket? = none) (d : Int) :
    i.relocate d = i := if_pos plain

theorem Instruction.relocate_of_jump {i : Instruction} (jumps : i.op.bracket? ≠ none) (d : Int) :
    i.relocate d = ⟨i.op, i.operand + d⟩ := if_neg jumps

namespace Program

variable {p q : Program} {d : Int} {i : Nat} {target : Int}

@[simp] theorem size_relocate : (p.relocate d).size = p.size := Array.size_map

@[simp] theorem brackets_relocate : (p.relocate d).brackets = p.brackets := by
  simp [brackets, relocate, Function.comp_def]

@[simp] theorem brackets_push (i : Instruction) :
    Program.brackets (p.push i) = p.brackets ++ [i.op.bracket?] := by
  simp [brackets]

@[simp] theorem brackets_append : (p ++ q : Program).brackets = p.brackets ++ q.brackets := by
  simp [brackets]

@[simp] theorem relocate_append :
    (p ++ q : Program).relocate d = p.relocate d ++ q.relocate d := Array.map_append

@[simp] theorem relocate_singleton (i : Instruction) :
    Program.relocate d #[i] = #[i.relocate d] := by
  simp [relocate]

@[simp] theorem relocate_push (i : Instruction) :
    Program.relocate d (p.push i) = (p.relocate d).push (i.relocate d) := Array.map_push

@[simp] theorem relocate_relocate (e : Int) : (p.relocate d).relocate e = p.relocate (d + e) := by
  have twice (i : Instruction) : (i.relocate d).relocate e = i.relocate (d + e) := by
    by_cases plain : i.op.bracket? = none
    · simp [Instruction.relocate, plain]
    · simp [Instruction.relocate, plain, Int.add_assoc]
  simp [relocate, Function.comp_def, twice]

theorem exists_of_relocate {op : Opcode} (jumps : op.bracket? ≠ none)
    (here : (p.relocate d)[i]? = some ⟨op, target⟩) :
    ∃ target', p[i]? = some ⟨op, target'⟩ ∧ target = target' + d := by
  rw [relocate, Array.getElem?_map] at here
  obtain ⟨⟨op', target'⟩, found, same⟩ := Option.map_eq_some_iff.1 here
  obtain rfl : op' = op := by simpa using congrArg Instruction.op same
  rw [Instruction.relocate_of_jump jumps] at same
  exact ⟨target', found, (congrArg Instruction.operand same).symm⟩

end Program

namespace Block

theorem code_add (b : Block (Action × Nat)) (start d : Nat) :
    b.code (start + d) = (b.code start).map (Instruction.relocate d) := by
  induction b generalizing start with
  | stop => rfl
  | action p rest ih =>
    obtain ⟨a, n⟩ := p
    have plain : (Instruction.ofSymbol a.symbol n).op.bracket? = none := by
      simp [Instruction.ofSymbol]
    simp only [code, List.map_cons, Instruction.relocate_of_plain plain]
    rw [Nat.add_right_comm, ih]
  | loop body rest ihBody ihRest =>
    have jump (m : Bracket) (target : Nat) :
        (Instruction.ofSymbol m.symbol target).relocate d =
          Instruction.ofSymbol m.symbol (target + d : Nat) :=
      Instruction.relocate_of_jump (by simp [Instruction.ofSymbol]) d
    have opening (target : Nat) := jump .opening target
    have closing (target : Nat) := jump .closing target
    simp only [Bracket.symbol] at opening closing
    have length : (body.code (start + 1 + d)).length = (body.code (start + 1)).length := by
      rw [length_code, length_code]
    simp only [code, List.map_cons, List.map_append, opening, closing, ← ihBody, ← ihRest, length,
      Nat.add_right_comm _ d]

theorem relocate_program (b : Block Action) (d : Nat) :
    b.program.relocate d = (b.fold.code d).toArray := by
  rw [program, Program.relocate, List.map_toArray, ← code_add, Nat.zero_add]

theorem program_loop (b : Block Action) :
    (loop b stop).program =
      #[⟨.jumpIfZero, b.program.size + 1⟩] ++ b.program.relocate 1 ++ #[⟨.jumpIfNonZero, 0⟩] := by
  have length : (b.fold.code 1).length = (b.fold.code 0).length := by
    rw [length_code, length_code]
  have moved : b.program.relocate 1 = (b.fold.code 1).toArray := b.relocate_program 1
  rw [moved]
  simp [program, fold, code, length, Instruction.ofSymbol, Opcode.ofSymbol]

end Block

namespace Assembly

variable {a b : Array Token} {p q : Program}

theorem ofTokens_empty : Program.ofTokens #[] = .ok #[] :=
  Program.ofTokens_of_symbols (b := .stop) rfl

/-- Where no run goes on across the seam, the codes stand one behind the other. -/
theorem ofTokens_append (accepted : Program.ofTokens a = .ok p)
    (accepted' : Program.ofTokens b = .ok q) (apart : Token.Apart a.toList b.toList) :
    Program.ofTokens (a ++ b) = .ok (p ++ q.relocate p.size) := by
  obtain ⟨block, spelled, rfl⟩ := exists_block_of_ok accepted
  obtain ⟨block', spelled', rfl⟩ := exists_block_of_ok accepted'
  rw [ofTokens_eq_link, Array.toList_append, stretches_append _ apart,
    block.fold.link_pieces {} (Block.stretches_of_symbols spelled),
    ← List.append_nil (stretches Token.joins b.toList),
    block'.fold.link_pieces _ (Block.stretches_of_symbols spelled'), Block.relocate_program]
  simp [Linkage.link, Linkage.finish, Block.program]

theorem exists_action_of_pieces {b : Block (Action × Nat)} {terminal : Terminal} {n : Nat}
    {pieces : List (Terminal × Nat)}
    (spelled : (terminal, n) :: pieces = b.pieces.map fun p => (Terminal.known p.1, p.2))
    (plain : terminal.bracket? = none) :
    ∃ (c : Action) (tail : Block (Action × Nat)), b = .action (c, n) tail ∧
      terminal = .known c.symbol ∧
      pieces = tail.pieces.map fun p => (Terminal.known p.1, p.2) := by
  cases b with
  | stop => cases spelled
  | action p tail =>
    obtain ⟨c, k⟩ := p
    obtain ⟨head, rfl⟩ := List.cons.inj spelled
    obtain ⟨rfl, rfl⟩ := Prod.mk.inj head
    exact ⟨c, tail, rfl, rfl, rfl⟩
  | loop body tail =>
    obtain ⟨rfl, -⟩ := Prod.mk.inj (List.cons.inj spelled).1
    cases plain

/-- A run that goes on across the seam is one instruction with the sum of the counts. -/
theorem ofTokens_append_of_joins (accepted : Program.ofTokens a = .ok p)
    (accepted' : Program.ofTokens b = .ok q) (goesOn : ¬ Token.Apart a.toList b.toList) :
    ∃ (op : Opcode) (n m : Nat) (front rest : Program), op.bracket? = none ∧
      p = front.push ⟨op, n⟩ ∧ q = #[⟨op, m⟩] ++ rest ∧
      Program.ofTokens (a ++ b) =
        .ok (front.push ⟨op, n + m⟩ ++ rest.relocate (p.size - 1)) := by
  simp only [Token.Apart, not_forall, Bool.not_eq_false] at goesOn
  obtain ⟨x, last, y, first, joined⟩ := goesOn
  obtain ⟨front, z, n, m, behind, before, after, joined', both⟩ :=
    stretches_append_of_joins Token.joins_eq_of_joins last first joined
  obtain ⟨alike, plain⟩ := Terminal.joins_iff.1 joined'
  obtain ⟨same, plain⟩ := Terminal.joins_iff.1 joined'
  obtain ⟨block, spelled, rfl⟩ := exists_block_of_ok accepted'
  have spelled := Block.stretches_of_symbols spelled
  rw [after, List.map_cons] at spelled
  obtain ⟨c, tail, folded, is, spelledTail⟩ := exists_action_of_pieces spelled (same ▸ plain)
  -- The first program ends with the run that the second one begins with.
  rw [ofTokens_eq_link, before] at accepted
  obtain ⟨between, reached, goesOn⟩ := Linkage.exists_link_behind accepted
  have placed (k : Nat) := Block.place_action between (same.trans is) k
  rw [Linkage.link, placed] at reached
  obtain ⟨closed, rfl⟩ := Linkage.finish_eq_ok_iff.1 reached
  have moved : tail.code (between.program.size + 1) =
      (tail.code 1).map (Instruction.relocate between.program.size) := by
    rw [← Block.code_add, Nat.add_comm]
  refine ⟨.ofSymbol c.symbol, n, m, between.program, (tail.code 1).toArray, ?_, ?_, ?_, ?_⟩
  · simp
  · simp [Instruction.ofSymbol]
  · simp [Block.program, folded, Block.code, Instruction.ofSymbol]
  · rw [ofTokens_eq_link, Array.toList_append, both, goesOn, Linkage.link, placed,
      ← List.append_nil behind]
    simp only
    rw [tail.link_pieces _ spelledTail, Linkage.link]
    apply Linkage.finish_eq_ok_iff.2
    exact ⟨closed, by simp [moved, Program.relocate, Instruction.ofSymbol]⟩

theorem ofTokens_enclose (accepted : Program.ofTokens a = .ok p) {opening closing : Token}
    (opens : opening.terminal = .known .loopStart) (closes : closing.terminal = .known .loopEnd) :
    Program.ofTokens (#[opening] ++ a ++ #[closing]) =
      .ok (#[⟨.jumpIfZero, p.size + 1⟩] ++ p.relocate 1 ++ #[⟨.jumpIfNonZero, 0⟩]) := by
  obtain ⟨block, spelled, rfl⟩ := exists_block_of_ok accepted
  rw [← Block.program_loop]
  apply Program.ofTokens_of_symbols
  simp [opens, closes, spelled, Block.symbols, Block.spell, Bracket.symbol]

end Assembly

/-- The program of one token list behind another is found from the programs of the two: they stand
one behind the other, the second one relocated. If a run goes on across the seam, its two
instructions become one with the sum of their counts, so that what follows moves by one less. The
program of a loop is that of its body, relocated by one, between two jumps to each other. -/
theorem assembly_is_compositional {a b : Array Token} {p q : Program}
    (accepted : Program.ofTokens a = .ok p) (accepted' : Program.ofTokens b = .ok q) :
    (Token.Apart a.toList b.toList →
      Program.ofTokens (a ++ b) = .ok (p ++ q.relocate p.size)) ∧
    (¬ Token.Apart a.toList b.toList →
      ∃ (op : Opcode) (n m : Nat) (front rest : Program), op.bracket? = none ∧
        p = front.push ⟨op, n⟩ ∧ q = #[⟨op, m⟩] ++ rest ∧
        Program.ofTokens (a ++ b) =
          .ok (front.push ⟨op, n + m⟩ ++ rest.relocate (p.size - 1))) ∧
    ∀ opening closing : Token, opening.terminal = .known .loopStart →
      closing.terminal = .known .loopEnd →
      Program.ofTokens (#[opening] ++ a ++ #[closing]) =
        .ok (#[⟨.jumpIfZero, p.size + 1⟩] ++ p.relocate 1 ++ #[⟨.jumpIfNonZero, 0⟩]) := by
  refine ⟨?_, ?_, ?_⟩
  · exact Assembly.ofTokens_append accepted accepted'
  · exact Assembly.ofTokens_append_of_joins accepted accepted'
  · intro opening closing opens closes
    exact Assembly.ofTokens_enclose accepted opens closes

/-- A run of three across the seam, in front of a loop. -/
theorem assembly_is_compositional_joined :
    let a : Array Token := #[⟨.known .decrement, ⟨1, 1⟩⟩, ⟨.known .increment, ⟨1, 2⟩⟩]
    let b : Array Token := #[⟨.known .increment, ⟨2, 1⟩⟩, ⟨.known .increment, ⟨2, 2⟩⟩,
      ⟨.known .loopStart, ⟨2, 3⟩⟩, ⟨.known .output, ⟨2, 4⟩⟩, ⟨.known .loopEnd, ⟨2, 5⟩⟩]
    Program.ofTokens a = .ok #[⟨.sub, 1⟩, ⟨.add, 1⟩] ∧
      Program.ofTokens b = .ok #[⟨.add, 2⟩, ⟨.jumpIfZero, 3⟩, ⟨.output, 1⟩, ⟨.jumpIfNonZero, 1⟩] ∧
      ¬ Token.Apart a.toList b.toList ∧
      Program.ofTokens (a ++ b) = .ok #[⟨.sub, 1⟩, ⟨.add, 3⟩, ⟨.jumpIfZero, 4⟩, ⟨.output, 1⟩,
        ⟨.jumpIfNonZero, 2⟩] := by
  intro a b
  let loop : Block Action := .loop (.action .output .stop) .stop
  have first : Program.ofTokens a = .ok #[⟨.sub, 1⟩, ⟨.add, 1⟩] :=
    Program.ofTokens_of_symbols (b := .action .decrement (.action .increment .stop)) rfl
  have second : Program.ofTokens b =
      .ok #[⟨.add, 2⟩, ⟨.jumpIfZero, 3⟩, ⟨.output, 1⟩, ⟨.jumpIfNonZero, 1⟩] :=
    Program.ofTokens_of_symbols (b := .action .increment (.action .increment loop)) rfl
  have joined : ¬ Token.Apart a.toList b.toList := by decide
  obtain ⟨op, n, m, front, rest, -, before, behind, both⟩ :=
    (assembly_is_compositional first second).2.1 joined
  have split : (#[⟨.sub, 1⟩] : Program).push ⟨.add, 1⟩ = front.push ⟨op, n⟩ := before
  obtain ⟨last, rfl⟩ := Array.push_eq_push.1 split
  obtain ⟨rfl, count⟩ := Instruction.mk.inj last
  have split' : #[⟨.add, 2⟩] ++ #[⟨.jumpIfZero, 3⟩, ⟨.output, 1⟩, ⟨.jumpIfNonZero, 1⟩] =
      #[⟨.add, m⟩] ++ rest := behind
  obtain rfl := Array.append_inj_right split' rfl
  have count' := (Instruction.mk.inj (List.cons.inj (congrArg Array.toList split')).1).2
  refine ⟨first, second, joined, ?_⟩
  rw [both, ← count, ← count']
  simp [Program.relocate, Instruction.relocate, Opcode.bracket?]

end TapeVM
