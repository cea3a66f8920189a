import TapeVM.Proofs.Jumps

/-! Canonical programs: the programs that sources are assembled to. Such a program can be written
out again, and the symbols it is written as are assembled to it; so programs of sources and the
symbols of those sources determine each other. -/
namespace TapeVM

open Nesting

/-- The symbol that an operation comes from. -/
def Opcode.symbol? : Opcode → Option Symbol
  | add => some .increment
  | sub => some .decrement
  | shiftLeft => some .moveLeft
  | shiftRight => some .moveRight
  | jumpIfZero => some .loopStart
  | jumpIfNonZero => some .loopEnd
  | input => some .input
  | output => some .output
  | unassigned _ => none

/-- The symbol of an instruction and how often it is written: once for a jump, and as often as the
operand says for anything else. -/
def Instruction.piece? (i : Instruction) : Option (Symbol × Nat) :=
  i.op.symbol?.map fun s => (s, if s.bracket? = none then i.operand.toNat else 1)

namespace Program

def pieces (p : Program) : List (Symbol × Nat) := p.toList.filterMap Instruction.piece?

def symbols (p : Program) : List Symbol := unstretch p.pieces

def expand (p : Program) : String := String.ofList (p.symbols.map Symbol.char)

/-- All operations are known, every count is positive, neighbours that are no jumps differ, and the
jumps are paired by their nesting. -/
structure Canonical (p : Program) : Prop extends Linked p where
  known : ∀ i ∈ p, ∃ s, i.op = .ofSymbol s
  positive : ∀ i ∈ p, i.op.bracket? = none → 1 ≤ i.operand
  folded : p.toList.IsChain fun i j => i.op.bracket? = none → i.op ≠ j.op

end Program

@[simp] theorem Opcode.symbol?_ofSymbol (s : Symbol) : (Opcode.ofSymbol s).symbol? = some s := by
  cases s <;> rfl

theorem Opcode.symbol?_eq_some_iff {op : Opcode} {s : Symbol} :
    op.symbol? = some s ↔ op = .ofSymbol s := by
  constructor
  · intro h
    cases op <;> cases h <;> rfl
  · rintro rfl
    exact symbol?_ofSymbol s

@[simp] theorem Opcode.ofSymbol_inj {s t : Symbol} :
    Opcode.ofSymbol s = Opcode.ofSymbol t ↔ s = t := by
  constructor
  · intro same
    simpa using congrArg Opcode.symbol? same
  · rintro rfl
    rfl

theorem Instruction.piece?_eq_some_iff {i : Instruction} {s : Symbol} {n : Nat} :
    i.piece? = some (s, n) ↔
      i.op = .ofSymbol s ∧ n = if s.bracket? = none then i.operand.toNat else 1 := by
  rw [piece?, Option.map_eq_some_iff]
  constructor
  · rintro ⟨t, found, same⟩
    obtain ⟨rfl, rfl⟩ := Prod.mk.inj same
    exact ⟨Opcode.symbol?_eq_some_iff.1 found, rfl⟩
  · rintro ⟨is, rfl⟩
    exact ⟨s, Opcode.symbol?_eq_some_iff.2 is, rfl⟩

theorem marks_unstretch {pieces : List (Symbol × Nat)}
    (single : ∀ s n, (s, n) ∈ pieces → s.joins s = false → n = 1) :
    marks ((unstretch pieces).map Symbol.bracket?) =
      marks (pieces.map fun piece => piece.1.bracket?) := by
  induction pieces with
  | nil => rfl
  | cons piece rest ih =>
    obtain ⟨s, n⟩ := piece
    have ih := ih fun s n member => single s n (List.mem_cons_of_mem _ member)
    simp only [marks] at ih
    cases kind : s.bracket? with
    | none => simp [marks, ih, kind]
    | some bracket =>
      obtain rfl := single s n List.mem_cons_self (by simp [Symbol.joins, kind])
      simp [marks, ih, kind]

namespace Program

variable {p q : Program}

theorem Canonical.map_piece? (canonical : p.Canonical) :
    p.toList.map Instruction.piece? = p.pieces.map some := by
  rw [pieces, List.map_filterMap_some_eq_filter_map_isSome, List.filter_eq_self.2]
  simp only [List.mem_map]
  rintro _ ⟨i, member, rfl⟩
  obtain ⟨s, is⟩ := canonical.known i (by simpa using member)
  simp [Instruction.piece?, is]

theorem apart_iff {i j : Instruction} {a b : Symbol × Nat} (first : i.piece? = some a)
    (second : j.piece? = some b) :
    (i.op.bracket? = none → i.op ≠ j.op) ↔ a.1.joins b.1 = false := by
  rw [(Instruction.piece?_eq_some_iff.1 first).1, (Instruction.piece?_eq_some_iff.1 second).1]
  simp only [Opcode.bracket?_ofSymbol, ne_eq, Opcode.ofSymbol_inj, Symbol.joins]
  simp
  tauto

theorem isChain_pieces (spelled : p.toList.map Instruction.piece? = p.pieces.map some) :
    (p.toList.IsChain fun i j => i.op.bracket? = none → i.op ≠ j.op) ↔
      p.pieces.IsChain fun a b => a.1.joins b.1 = false := by
  have size : p.toList.length = p.pieces.length := by simpa using congrArg List.length spelled
  have piece (k : Nat) (left : k < p.toList.length) (right : k < p.pieces.length) :
      p.toList[k].piece? = some p.pieces[k] := by
    have := congrArg (fun l => l[k]?) spelled
    simpa only [List.getElem?_map, List.getElem?_eq_getElem left, List.getElem?_eq_getElem right,
      Option.map_some, Option.some.injEq] using this
  rw [List.isChain_iff_getElem, List.isChain_iff_getElem]
  constructor
  · intro chain k inside
    exact (apart_iff (piece k (by omega) (by omega)) (piece (k + 1) (by omega) inside)).1
      (chain k (by omega))
  · intro chain k inside
    exact (apart_iff (piece k (by omega) (by omega)) (piece (k + 1) inside (by omega))).2
      (chain k (by omega))

theorem Canonical.maximal (canonical : p.Canonical) : Maximal Symbol.joins p.pieces where
  positive s n member := by
    obtain ⟨i, here, found⟩ := List.mem_filterMap.1 member
    obtain ⟨is, rfl⟩ := Instruction.piece?_eq_some_iff.1 found
    by_cases plain : s.bracket? = none
    · have := canonical.positive i (by simpa using here) (by rw [is]; simpa using plain)
      rw [if_pos plain]
      omega
    · simp [plain]
  single s n member alone := by
    obtain ⟨i, here, found⟩ := List.mem_filterMap.1 member
    obtain ⟨is, rfl⟩ := Instruction.piece?_eq_some_iff.1 found
    have bracket : s.bracket? ≠ none := by simpa [Symbol.joins] using alone
    simp [bracket]
  apart := (isChain_pieces canonical.map_piece?).1 canonical.folded

theorem Canonical.stretches_symbols (canonical : p.Canonical) :
    stretches Symbol.joins p.symbols = p.pieces :=
  stretches_unstretch canonical.maximal

theorem Linked.getElem?_eq (first : p.Linked) (second : q.Linked) (same : p.brackets = q.brackets)
    {k : Nat} {bracket : Bracket} (jumps : p.brackets[k]? = some (some bracket)) :
    p[k]? = q[k]? := by
  have jumps' := same ▸ jumps
  cases bracket with
  | opening =>
    obtain ⟨target, here⟩ := exists_jumpIfZero jumps
    obtain ⟨target', here'⟩ := exists_jumpIfZero jumps'
    obtain ⟨j, matched, rfl⟩ := first.opening k target here
    obtain ⟨j', matched', rfl⟩ := second.opening k target' here'
    rw [here, here', matched.right_unique (same ▸ matched')]
  | closing =>
    obtain ⟨target, here⟩ := exists_jumpIfNonZero jumps
    obtain ⟨target', here'⟩ := exists_jumpIfNonZero jumps'
    obtain ⟨i, matched, rfl⟩ := first.closing k target here
    obtain ⟨i', matched', rfl⟩ := second.closing k target' here'
    rw [here, here', matched.left_unique (same ▸ matched')]

/-- A canonical program is determined by its symbols: they tell its operations and counts, and its
operations tell its jumps. -/
theorem Canonical.eq_of_symbols (first : p.Canonical) (second : q.Canonical)
    (same : p.symbols = q.symbols) : p = q := by
  have pieces : p.toList.map Instruction.piece? = q.toList.map Instruction.piece? := by
    rw [first.map_piece?, second.map_piece?, ← first.stretches_symbols,
      ← second.stretches_symbols, same]
  have size : p.size = q.size := by simpa using congrArg List.length pieces
  have piece (k : Nat) (left : k < p.size) (right : k < q.size) : p[k].piece? = q[k].piece? := by
    have := congrArg (fun l => l[k]?) pieces
    simpa only [List.getElem?_map, Array.getElem?_toList, Array.getElem?_eq_getElem left,
      Array.getElem?_eq_getElem right, Option.map_some, Option.some.injEq] using this
  have ops (k : Nat) (left : k < p.size) (right : k < q.size) : p[k].op = q[k].op := by
    obtain ⟨s, is⟩ := first.known p[k] (p.getElem_mem left)
    have found : p[k].piece? = some (s, _) := Instruction.piece?_eq_some_iff.2 ⟨is, rfl⟩
    rw [piece k left right] at found
    rw [is, (Instruction.piece?_eq_some_iff.1 found).1]
  have brackets : p.brackets = q.brackets := by
    apply List.ext_getElem (by simp [length_brackets, size])
    intro k left right
    simp [Program.brackets, ops k (by simpa [length_brackets] using left)
      (by simpa [length_brackets] using right)]
  apply Array.ext size
  intro k left right
  cases kind : p[k].op.bracket? with
  | some bracket =>
    have jumps : p.brackets[k]? = some (some bracket) := by
      rw [getElem?_brackets, Array.getElem?_eq_getElem left, Option.map_some, kind]
    simpa [left, right] using first.toLinked.getElem?_eq second.toLinked brackets jumps
  | none =>
    obtain ⟨s, is⟩ := first.known p[k] (p.getElem_mem left)
    have plain : s.bracket? = none := by simpa [is] using kind
    have found : p[k].piece? = some (s, _) := Instruction.piece?_eq_some_iff.2 ⟨is, rfl⟩
    rw [piece k left right] at found
    have counts := (Instruction.piece?_eq_some_iff.1 found).2
    simp only [plain, if_true] at counts
    have positive := first.positive p[k] (p.getElem_mem left) kind
    have positive' := second.positive q[k] (q.getElem_mem right) (by rw [← ops k left right, kind])
    have operand : p[k].operand = q[k].operand := by omega
    calc p[k] = ⟨p[k].op, p[k].operand⟩ := rfl
      _ = ⟨q[k].op, q[k].operand⟩ := by rw [ops k left right, operand]
      _ = q[k] := rfl

theorem Canonical.balanced (canonical : p.Canonical) :
    Balanced (p.symbols.map Symbol.bracket?) := by
  have program : Balanced p.brackets := by
    apply balanced_of_matched
    · intro i opens
      obtain ⟨target, here⟩ := exists_jumpIfZero opens
      obtain ⟨j, matched, -⟩ := canonical.opening i target here
      exact ⟨j, matched⟩
    · intro j closes
      obtain ⟨target, here⟩ := exists_jumpIfNonZero closes
      obtain ⟨i, matched, -⟩ := canonical.closing j target here
      exact ⟨i, matched⟩
  have spelled : p.brackets = p.pieces.map fun piece => piece.1.bracket? := by
    have op (i : Instruction) : i.op.bracket? = i.piece?.bind fun piece => piece.1.bracket? := by
      rw [Instruction.piece?]
      cases i.op <;> rfl
    calc p.brackets
        = (p.toList.map Instruction.piece?).map fun o => o.bind fun piece => piece.1.bracket? := by
          simp [brackets, op]
      _ = (p.pieces.map some).map fun o => o.bind fun piece => piece.1.bracket? := by
          rw [canonical.map_piece?]
      _ = p.pieces.map fun piece => piece.1.bracket? := by simp
  rw [← balanced_marks, symbols, marks_unstretch canonical.maximal.single, ← spelled,
    balanced_marks]
  exact program

end Program

namespace Block

theorem map_piece?_code (b : Block (Action × Nat)) (start : Nat) :
    (b.code start).map Instruction.piece? = b.pieces.map some := by
  induction b generalizing start with
  | stop => rfl
  | action p rest ih =>
    obtain ⟨a, n⟩ := p
    simp [code, ih, Instruction.piece?, Instruction.ofSymbol]
  | loop body rest ihBody ihRest =>
    simp [code, ihBody, ihRest, Instruction.piece?, Instruction.ofSymbol, Symbol.bracket?]

theorem pieces_program (b : Block Action) : b.program.pieces = b.fold.pieces := by
  have := congrArg (List.filterMap id) (b.fold.map_piece?_code 0)
  simpa [Program.pieces, program, List.filterMap_map] using this

theorem map_piece?_program (b : Block Action) :
    b.program.toList.map Instruction.piece? = b.program.pieces.map some := by
  rw [pieces_program]
  exact b.fold.map_piece?_code 0

theorem exists_piece {b : Block Action} {i : Instruction} (member : i ∈ b.program) :
    ∃ piece ∈ b.program.pieces, i.piece? = some piece := by
  have found : i.piece? ∈ b.program.pieces.map some :=
    b.map_piece?_program ▸ List.mem_map_of_mem (by simpa using member)
  obtain ⟨piece, here, same⟩ := List.mem_map.1 found
  exact ⟨piece, here, same.symm⟩

theorem symbols_program (b : Block Action) : b.program.symbols = b.symbols := by
  rw [Program.symbols, pieces_program, ← stretches_symbols,
    unstretch_stretches Symbol.eq_of_joins]

theorem canonical_program (b : Block Action) : b.program.Canonical := by
  have maximal : Maximal Symbol.joins b.program.pieces := by
    rw [pieces_program, ← stretches_symbols]
    exact maximal_stretches Symbol.eq_of_joins _
  refine { Program.linked_program b with known := ?_, positive := ?_, folded := ?_ }
  · intro i member
    obtain ⟨⟨s, n⟩, -, found⟩ := exists_piece member
    exact ⟨s, (Instruction.piece?_eq_some_iff.1 found).1⟩
  · intro i member plain
    obtain ⟨⟨s, n⟩, here, found⟩ := exists_piece member
    obtain ⟨is, rfl⟩ := Instruction.piece?_eq_some_iff.1 found
    have count := maximal.positive _ _ here
    rw [is, Opcode.bracket?_ofSymbol] at plain
    rw [if_pos plain] at count
    omega
  · exact (Program.isChain_pieces b.map_piece?_program).2 maximal.apart

end Block

/-- A canonical program is that of the block its symbols spell. -/
theorem Program.Canonical.exists_block {p : Program} (canonical : p.Canonical) :
    ∃ b : Block Action, b.symbols = p.symbols ∧ p = b.program := by
  obtain ⟨b, found⟩ := Block.exists_ofSymbols? canonical.balanced
  have spelled := Block.ofSymbols?_eq_some_iff.1 found
  exact ⟨b, spelled, canonical.eq_of_symbols b.canonical_program
    (by rw [b.symbols_program, spelled])⟩

/-- Assembling and writing out undo each other: what a source is assembled to is canonical and is
written as the symbols of the source, and what a canonical program is written as is assembled to
that program again. So two sources have the same program only if they differ in nothing but
comments. -/
theorem assemble_expand_inverse :
    (∀ source program, Program.ofSource source = .ok program →
      program.Canonical ∧ program.expand = source.symbolText) ∧
    (∀ program : Program, program.Canonical →
      Program.ofSource (.text program.expand) = .ok program) ∧
    (∀ source source' program program', Program.ofSource source = .ok program →
      Program.ofSource source' = .ok program' →
      (program = program' ↔ source.symbols = source'.symbols)) := by
  have written {source program} (accepted : Program.ofSource source = .ok program) :
      program.Canonical ∧ program.symbols = source.symbols := by
    obtain ⟨b, spelled, rfl⟩ := Program.ofSource_eq_ok_iff.1 accepted
    exact ⟨b.canonical_program, b.symbols_program.trans spelled⟩
  refine ⟨?_, ?_, ?_⟩
  · intro source program accepted
    obtain ⟨canonical, same⟩ := written accepted
    exact ⟨canonical, by rw [Program.expand, same, Source.symbolText]⟩
  · intro program canonical
    obtain ⟨b, spelled, here⟩ := canonical.exists_block
    exact Program.ofSource_eq_ok_iff.2 ⟨b, by rw [Program.expand, Source.symbols_text, spelled], here⟩
  · intro source source' program program' accepted accepted'
    obtain ⟨canonical, same⟩ := written accepted
    obtain ⟨canonical', same'⟩ := written accepted'
    constructor
    · rintro rfl
      rw [← same, ← same']
    · intro symbols
      exact canonical.eq_of_symbols canonical' (by rw [same, same', symbols])

/-- Comments do not cut a stretch, and a canonical program comes back from what it is written as. -/
theorem assemble_expand_inverse_folded :
    let source : Source := .bytes [0x2b, 0x20, 0x2b, 0x5b, 0x2c, 0x0a, 0x2c, 0x5d]
    let program : Program := #[⟨.add, 2⟩, ⟨.jumpIfZero, 3⟩, ⟨.input, 2⟩, ⟨.jumpIfNonZero, 1⟩]
    Program.ofSource source = .ok program ∧ program.expand = source.symbolText ∧
      Program.ofSource (.text program.expand) = .ok program := by
  intro source program
  let body : Block Action := .action .input (.action .input .stop)
  have accepted : Program.ofSource source = .ok program :=
    Program.ofSource_eq_ok_iff.2
      ⟨.action .increment (.action .increment (.loop body .stop)), by decide, by decide⟩
  obtain ⟨canonical, expanded⟩ := assemble_expand_inverse.1 source program accepted
  exact ⟨accepted, expanded, assemble_expand_inverse.2.1 program canonical⟩

end TapeVM
