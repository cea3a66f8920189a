import TapeVM.Proofs.Verdict

/-! Jumps of assembled programs. The brackets of a program are those of its source, and every jump
goes to the partner of its bracket. -/
namespace TapeVM

open Nesting

/-- A jump goes to the partner of its bracket, where indices are counted from `start`. -/
structure Resolved (l : List (Option Bracket)) (start i : Nat) (instruction : Instruction) :
    Prop where
  opening : instruction.op = .jumpIfZero →
    ∃ j, Matched l i j ∧ instruction.operand = (start + j : Nat)
  closing : instruction.op = .jumpIfNonZero →
    ∃ k, Matched l k i ∧ instruction.operand = (start + k : Nat)

theorem Resolved.of_plain {l : List (Option Bracket)} {start i : Nat} {instruction : Instruction}
    (plain : instruction.op.bracket? = none) : Resolved l start i instruction where
  opening is := by
    rw [is] at plain
    cases plain
  closing is := by
    rw [is] at plain
    cases plain

theorem Resolved.shift {l l' : List (Option Bracket)} {start i d : Nat} {instruction : Instruction}
    (resolved : Resolved l (start + d) i instruction)
    (moved : ∀ {i j}, Matched l i j → Matched l' (i + d) (j + d)) :
    Resolved l' start (i + d) instruction where
  opening is := by
    obtain ⟨j, matched, operand⟩ := resolved.opening is
    exact ⟨j + d, moved matched, by rw [operand, Nat.add_assoc, Nat.add_comm d]⟩
  closing is := by
    obtain ⟨k, matched, operand⟩ := resolved.closing is
    exact ⟨k + d, moved matched, by rw [operand, Nat.add_assoc, Nat.add_comm d]⟩

namespace Block

theorem brackets_code (b : Block (Action × Nat)) (start : Nat) :
    (b.code start).map (fun i => i.op.bracket?) = b.brackets := by
  induction b generalizing start with
  | stop => rfl
  | action p rest ih =>
    simp [code, Instruction.ofSymbol, ih, brackets_action]
  | loop body rest ihBody ihRest =>
    simp [code, Instruction.ofSymbol, ihBody, ihRest, brackets_loop, Symbol.bracket?]

theorem length_code (b : Block (Action × Nat)) (start : Nat) :
    (b.code start).length = b.brackets.length := by
  rw [← brackets_code b start, List.length_map]

theorem resolved_code (b : Block (Action × Nat)) (start : Nat) {i : Nat} {instruction : Instruction}
    (here : (b.code start)[i]? = some instruction) : Resolved b.brackets start i instruction := by
  induction b generalizing start i with
  | stop => simp [code] at here
  | action p rest ih =>
    obtain ⟨a, n⟩ := p
    cases i with
    | zero =>
      obtain rfl : Instruction.ofSymbol a.symbol n = instruction := by simpa [code] using here
      exact .of_plain (by simp [Instruction.ofSymbol])
    | succ i =>
      have inner := ih (start + 1) (by simpa [code] using here)
      exact inner.shift fun matched => matched.cons none
  | loop body rest ihBody ihRest =>
    rcases getElem?_loop here with ⟨rfl, rfl⟩ | ⟨k, rfl, inside⟩ | ⟨rfl, rfl⟩ | ⟨k, rfl, behind⟩
    · refine ⟨fun _ => ⟨_, matched_loop body rest, ?_⟩, fun closes => ?_⟩
      · simp [Instruction.ofSymbol, length_code, Int.add_assoc]
      · cases closes
    · exact (ihBody (start + 1) inside).shift (matched_body rest)
    · refine ⟨fun opens => ?_, fun _ => ⟨0, ?_, rfl⟩⟩
      · cases opens
      · rw [length_code]
        exact matched_loop body rest
    · rw [length_code] at behind ⊢
      exact (ihRest (start + (body.brackets.length + 2)) behind).shift (matched_rest body)

end Block

namespace Program

/-- The jumps of a program are paired by its nesting, and each goes to its partner. -/
structure Linked (p : Program) : Prop where
  opening : ∀ (i : Nat) target, p[i]? = some ⟨.jumpIfZero, target⟩ →
    ∃ j : Nat, Matched p.brackets i j ∧ target = j
  closing : ∀ (j : Nat) target, p[j]? = some ⟨.jumpIfNonZero, target⟩ →
    ∃ i : Nat, Matched p.brackets i j ∧ target = i

variable {p : Program} {i j : Nat}

theorem getElem?_brackets (p : Program) (i : Nat) :
    p.brackets[i]? = p[i]?.map fun instruction => instruction.op.bracket? := by
  simp [brackets]

theorem length_brackets (p : Program) : p.brackets.length = p.size := by simp [brackets]

theorem exists_jumpIfZero (opens : p.brackets[i]? = some (some .opening)) :
    ∃ target, p[i]? = some ⟨.jumpIfZero, target⟩ := by
  rw [getElem?_brackets] at opens
  obtain ⟨⟨op, target⟩, here, is⟩ := Option.map_eq_some_iff.1 opens
  cases op <;> cases is
  exact ⟨target, here⟩

theorem exists_jumpIfNonZero (closes : p.brackets[i]? = some (some .closing)) :
    ∃ target, p[i]? = some ⟨.jumpIfNonZero, target⟩ := by
  rw [getElem?_brackets] at closes
  obtain ⟨⟨op, target⟩, here, is⟩ := Option.map_eq_some_iff.1 closes
  cases op <;> cases is
  exact ⟨target, here⟩

/-- If the jumps at matching brackets go to partners, they go to each other. -/
theorem mutual_of_matched (matched : Matched p.brackets i j)
    (opening : ∀ target, p[i]? = some ⟨.jumpIfZero, target⟩ →
      ∃ k : Nat, Matched p.brackets i k ∧ target = k)
    (closing : ∀ target, p[j]? = some ⟨.jumpIfNonZero, target⟩ →
      ∃ k : Nat, Matched p.brackets k j ∧ target = k) :
    p[i]? = some ⟨.jumpIfZero, j⟩ ∧ p[j]? = some ⟨.jumpIfNonZero, i⟩ := by
  obtain ⟨target, here⟩ := exists_jumpIfZero matched.opening
  obtain ⟨j', matched', rfl⟩ := opening target here
  obtain ⟨target, there⟩ := exists_jumpIfNonZero matched.closing
  obtain ⟨i', matched'', rfl⟩ := closing target there
  obtain rfl := matched.right_unique matched'
  obtain rfl := matched.left_unique matched''
  exact ⟨here, there⟩

theorem Linked.mutual (linked : p.Linked) (matched : Matched p.brackets i j) :
    p[i]? = some ⟨.jumpIfZero, j⟩ ∧ p[j]? = some ⟨.jumpIfNonZero, i⟩ :=
  mutual_of_matched matched (linked.opening i) (linked.closing j)

theorem brackets_program (b : Block Action) : b.program.brackets = b.fold.brackets := by
  simp [brackets, Block.program, Block.brackets_code]

theorem linked_program (b : Block Action) : b.program.Linked := by
  have spelled := brackets_program b
  constructor
  · intro i target here
    obtain ⟨j, matched, operand⟩ :=
      (b.fold.resolved_code 0 (by simpa [Block.program] using here)).opening rfl
    exact ⟨j, spelled ▸ matched, by simpa using operand⟩
  · intro j target here
    obtain ⟨i, matched, operand⟩ :=
      (b.fold.resolved_code 0 (by simpa [Block.program] using here)).closing rfl
    exact ⟨i, spelled ▸ matched, by simpa using operand⟩

end Program

theorem Block.marks_brackets_fold (b : Block Action) : marks b.fold.brackets = marks b.brackets := by
  have skip {α : Type} (a : α) (rest : Block α) :
      marks (action a rest).brackets = marks rest.brackets := rfl
  induction b with
  | stop => rfl
  | action a rest ih =>
    rcases fold_action a rest with ⟨n, tail, before, after⟩ | ⟨-, after⟩
    · rw [skip, ← ih, before, after, skip, skip]
    · rw [skip, ← ih, after, skip]
  | loop body rest ihBody ihRest =>
    simp only [marks] at ihBody ihRest
    simp [fold, brackets_loop, marks, ihBody, ihRest]

namespace Assembly

variable {tokens : Array Token} {p : Program}

theorem balanced_of_ok (accepted : Program.ofTokens tokens = .ok p) :
    Balanced (Token.brackets tokens.toList) ∧ Balanced p.brackets := by
  obtain ⟨block, spelled, rfl⟩ := exists_block_of_ok accepted
  rw [brackets_of_symbols spelled, Block.brackets_symbols, Program.brackets_program]
  exact ⟨block.balanced_brackets, block.fold.balanced_brackets⟩

theorem marks_of_ok (accepted : Program.ofTokens tokens = .ok p) :
    marks (Token.brackets tokens.toList) = marks p.brackets := by
  obtain ⟨block, spelled, rfl⟩ := exists_block_of_ok accepted
  rw [brackets_of_symbols spelled, Block.brackets_symbols, Program.brackets_program,
    Block.marks_brackets_fold]

theorem linked_of_ok (accepted : Program.ofTokens tokens = .ok p) : p.Linked := by
  obtain ⟨block, -, rfl⟩ := exists_block_of_ok accepted
  exact Program.linked_program block

end Assembly

theorem Program.marks_brackets {source : Source} {program : Program}
    (accepted : Program.ofSource source = .ok program) :
    marks source.brackets = marks program.brackets := by
  rw [Source.brackets, ← Assembly.brackets_of_symbols source.terminals_tokens]
  exact Assembly.marks_of_ok accepted

/-- The k-th bracket of a source becomes the k-th jump of its program, and brackets that match
become jumps to each other. So every jump leads to an instruction of the program, none keeps the
placeholder (its value can only be a real index), and the stretches between partners never cross. -/
theorem jumps_match_brackets {source : Source} {program : Program}
    (accepted : Program.ofSource source = .ok program) :
    marks source.brackets = marks program.brackets ∧
    (∀ a b, Matched source.brackets a b → ∃ k m i j : Nat,
      (places source.brackets)[k]? = some a ∧ (places source.brackets)[m]? = some b ∧
      (places program.brackets)[k]? = some i ∧ (places program.brackets)[m]? = some j ∧
      i < j ∧ program[i]? = some ⟨.jumpIfZero, j⟩ ∧ program[j]? = some ⟨.jumpIfNonZero, i⟩) ∧
    (∀ (i : Nat) target, program[i]? = some ⟨.jumpIfZero, target⟩ →
      ∃ j : Nat, target = j ∧ i < j ∧ j < program.size ∧
        program[j]? = some ⟨.jumpIfNonZero, i⟩) ∧
    (∀ (j : Nat) target, program[j]? = some ⟨.jumpIfNonZero, target⟩ →
      ∃ i : Nat, target = i ∧ i < j ∧ program[i]? = some ⟨.jumpIfZero, j⟩) ∧
    (∀ instruction ∈ program, instruction.op = .jumpIfZero →
      instruction.operand = Instruction.unresolved → Instruction.unresolved < program.size) ∧
    (∀ i j i' j' : Nat, program[i]? = some ⟨.jumpIfZero, j⟩ →
      program[i']? = some ⟨.jumpIfZero, j'⟩ →
      (j < i' ∨ j' < i) ∨ (i ≤ i' ∧ j' ≤ j) ∨ (i' ≤ i ∧ j ≤ j')) := by
  have same := Program.marks_brackets accepted
  have linked : program.Linked := by
    obtain ⟨block, -, rfl⟩ := Program.ofSource_eq_ok_iff.1 accepted
    exact Program.linked_program block
  refine ⟨same, ?_, ?_, ?_, ?_, ?_⟩
  · intro a b matched
    obtain ⟨k, m, i, j, first, second, first', second', matched'⟩ := matched.transfer same
    exact ⟨k, m, i, j, first, second, first', second', matched'.lt, linked.mutual matched'⟩
  · intro i target here
    obtain ⟨j, matched, rfl⟩ := linked.opening i target here
    have bound := matched.lt_length
    rw [program.length_brackets] at bound
    exact ⟨j, rfl, matched.lt, bound, (linked.mutual matched).2⟩
  · intro j target here
    obtain ⟨i, matched, rfl⟩ := linked.closing j target here
    exact ⟨i, rfl, matched.lt, (linked.mutual matched).1⟩
  · rintro ⟨op, target⟩ member rfl rfl
    obtain ⟨i, bound, here⟩ := Array.mem_iff_getElem.1 member
    obtain ⟨j, matched, value⟩ := linked.opening i _ (Array.getElem?_eq_some_iff.2 ⟨bound, here⟩)
    have inside := matched.lt_length
    rw [program.length_brackets] at inside
    omega
  · intro i j i' j' here here'
    obtain ⟨n, matched, value⟩ := linked.opening i _ here
    obtain ⟨n', matched', value'⟩ := linked.opening i' _ here'
    obtain rfl := Int.ofNat_inj.1 value
    obtain rfl := Int.ofNat_inj.1 value'
    exact matched.disjoint_or_nested matched'

/-- The outer loop of a source whose second line begins inside it. -/
theorem jumps_match_brackets_nested :
    let source : Source := .bytes [0x2b, 0x2b, 0x5b, 0x0a, 0x5b, 0x2d, 0x5d, 0x2e, 0x5d]
    let program : Program := #[⟨.add, 2⟩, ⟨.jumpIfZero, 6⟩, ⟨.jumpIfZero, 4⟩, ⟨.sub, 1⟩,
      ⟨.jumpIfNonZero, 2⟩, ⟨.output, 1⟩, ⟨.jumpIfNonZero, 1⟩]
    Program.ofSource source = .ok program ∧ Matched source.brackets 2 7 ∧
      ∃ k m i j : Nat,
        (places source.brackets)[k]? = some 2 ∧ (places source.brackets)[m]? = some 7 ∧
        (places program.brackets)[k]? = some i ∧ (places program.brackets)[m]? = some j ∧
        i < j ∧ program[i]? = some ⟨.jumpIfZero, j⟩ ∧ program[j]? = some ⟨.jumpIfNonZero, i⟩ := by
  intro source program
  let body : Block Action := .loop (.action .decrement .stop) (.action .output .stop)
  have accepted : Program.ofSource source = .ok program :=
    Program.ofSource_eq_ok_iff.2
      ⟨.action .increment (.action .increment (.loop body .stop)), by decide, by decide⟩
  have matched : Matched source.brackets 2 7 :=
    ((Block.matched_loop body .stop).cons none).cons none
  exact ⟨accepted, matched, (jumps_match_brackets accepted).2.1 2 7 matched⟩

end TapeVM
