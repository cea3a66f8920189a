import TapeVM.Assembly
import TapeVM.Proofs.Block
import TapeVM.Proofs.Scan

/-! Linking: assembly stretch by stretch. A stretch of tokens becomes one instruction, and all that
assembly keeps from one stretch to the next is its program so far and its open loops. The code of a
folded block is what its stretches are linked to. -/
namespace TapeVM

/-- What assembly knows between two stretches. -/
structure Linkage where
  openLoops : List OpenLoop := []
  program : Program := #[]

namespace Linkage

def place (l : Linkage) (token : Token) (length : Nat) : Except Assembly.Error Linkage :=
  match token.terminal with
  | .known .loopStart =>
    .ok {
      openLoops := ⟨token.location, l.program.size⟩ :: l.openLoops
      program := l.program.push (.ofSymbol .loopStart Instruction.unresolved) }
  | .known .loopEnd =>
    match l.openLoops with
    | [] => .error (.unexpectedClosing token.location)
    | loop :: outer =>
      let target : Int := l.program.size
      let program := l.program.modify loop.index fun i => { i with operand := target }
      .ok { openLoops := outer, program := program.push (.ofSymbol .loopEnd loop.index) }
  | .known symbol => .ok { l with program := l.program.push (.ofSymbol symbol length) }
  | .foreign name => .error (.unknownSymbol name)

def finish (l : Linkage) : Except Assembly.Error Program :=
  match l.openLoops with
  | [] => .ok l.program
  | loop :: outer => .error (.unclosed loop.location (outer.length + 1))

theorem finish_eq_ok_iff {l : Linkage} {p : Program} :
    l.finish = .ok p ↔ l.openLoops = [] ∧ l.program = p := by
  unfold finish
  cases l.openLoops <;> simp

/-- All stretches are placed one after the other, and then no loop may be open. -/
def link (l : Linkage) : List (Token × Nat) → Except Assembly.Error Program
  | [] => l.finish
  | (token, length) :: pieces =>
    match l.place token length with
    | .ok l => l.link pieces
    | .error e => .error e

/-- Linking that succeeds has come through a state between any two of its stretches, and could have
gone on otherwise from there. -/
theorem exists_link_behind {l : Linkage} {front behind : List (Token × Nat)} {p : Program}
    (linked : l.link (front ++ behind) = .ok p) :
    ∃ between : Linkage, between.link behind = .ok p ∧
      ∀ other, l.link (front ++ other) = between.link other := by
  induction front generalizing l with
  | nil => exact ⟨l, linked, fun _ => rfl⟩
  | cons piece front ih =>
    obtain ⟨token, n⟩ := piece
    rw [List.cons_append, link] at linked
    cases placed : l.place token n with
    | error e => simp [placed] at linked
    | ok next =>
      rw [placed] at linked
      obtain ⟨between, reached, goesOn⟩ := ih linked
      refine ⟨between, reached, fun other => ?_⟩
      rw [List.cons_append, link, placed]
      exact goesOn other

/-- Every open loop has its instruction in the program. -/
def Inside (l : Linkage) : Prop := ∀ loop ∈ l.openLoops, loop.index < l.program.size

theorem place_grows {l next : Linkage} {token : Token} {length : Nat}
    (placed : l.place token length = .ok next) :
    next.program.size = l.program.size + 1 ∧
      ∀ loop ∈ next.openLoops, loop.index = l.program.size ∨ loop ∈ l.openLoops := by
  unfold place at placed
  split at placed
  · obtain rfl := Except.ok.inj placed
    refine ⟨by simp, fun loop member => ?_⟩
    rcases List.mem_cons.1 member with rfl | earlier
    · exact .inl rfl
    · exact .inr earlier
  · split at placed
    · cases placed
    · rename_i innermost outer loops
      obtain rfl := Except.ok.inj placed
      exact ⟨by simp, fun loop member => .inr (by simp [loops, member])⟩
  · obtain rfl := Except.ok.inj placed
    exact ⟨by simp, fun loop member => .inr member⟩
  · cases placed

theorem Inside.place {l next : Linkage} {token : Token} {length : Nat} (inside : l.Inside)
    (placed : l.place token length = .ok next) : next.Inside := by
  obtain ⟨size, loops⟩ := place_grows placed
  intro loop member
  rw [size]
  rcases loops loop member with here | earlier
  · omega
  · exact Nat.lt_succ_of_lt (inside loop earlier)

end Linkage

theorem Token.joins_eq_of_joins (x y : Token) (joined : x.joins y) : y.joins = x.joins := by
  funext z
  simp [Token.joins, (Terminal.joins_iff.1 joined).1]

namespace Assembly

def rest (a : Assembly) : List Token := a.tokens.toList.drop a.position

def linkage (a : Assembly) : Linkage := ⟨a.openLoops, a.program⟩

/-- The count is that of the program, and every open loop has its instruction in it. -/
structure Sound (a : Assembly) : Prop where
  count : a.count = a.program.size
  inside : a.linkage.Inside

theorem sound_ofTokens (tokens : Array Token) : (ofTokens tokens).Sound :=
  ⟨rfl, by simp [ofTokens, linkage, Linkage.Inside]⟩

theorem getElem?_position (a : Assembly) : a.tokens[a.position]? = a.rest.head? := by
  simp [rest, List.head?_drop]

theorem runEnd_eq (tokens : Array Token) (terminal : Terminal) (position : Nat) :
    runEnd tokens terminal position = position +
      ((tokens.toList.drop position).takeWhile fun t => t.terminal = terminal).length := by
  fun_induction runEnd tokens terminal position with
  | case1 position inside same ih =>
    have cut := List.drop_eq_getElem_cons (l := tokens.toList) (i := position) (by simpa using inside)
    rw [ih, cut]
    simp [same]
    omega
  | case2 position inside differ =>
    rw [List.drop_eq_getElem_cons (by simpa using inside)]
    simp [differ]
  | case3 position outside =>
    rw [List.drop_eq_nil_of_le (by simpa using outside)]
    rfl

/-- How many tokens the first stretch of a list has. -/
def reach (token : Token) (behind : List Token) : Nat := 1 + (behind.takeWhile token.joins).length

theorem take_reach (token : Token) (behind : List Token) :
    (token :: behind).take (reach token behind) = token :: behind.takeWhile token.joins := by
  rw [reach, Nat.add_comm, List.take_succ_cons]
  congr 1
  calc behind.take (behind.takeWhile token.joins).length
      = (behind.takeWhile token.joins ++ behind.dropWhile token.joins).take
          (behind.takeWhile token.joins).length := by rw [List.takeWhile_append_dropWhile]
    _ = behind.takeWhile token.joins := List.take_left

theorem drop_reach (token : Token) (behind : List Token) :
    (token :: behind).drop (reach token behind) = behind.dropWhile token.joins := by
  rw [reach, Nat.add_comm, List.drop_succ_cons]
  calc behind.drop (behind.takeWhile token.joins).length
      = (behind.takeWhile token.joins ++ behind.dropWhile token.joins).drop
          (behind.takeWhile token.joins).length := by rw [List.takeWhile_append_dropWhile]
    _ = behind.dropWhile token.joins := List.drop_left

theorem stretches_token_cons (token : Token) (behind : List Token) :
    stretches Token.joins (token :: behind) =
      (token, reach token behind) ::
        stretches Token.joins ((token :: behind).drop (reach token behind)) := by
  rw [drop_reach]
  exact stretches_eq_takeWhile Token.joins_eq_of_joins token behind

theorem reach_bracket {token : Token} {bracket : Bracket}
    (is : token.terminal.bracket? = some bracket) (behind : List Token) :
    reach token behind = 1 := by
  have alone (z : Token) : token.joins z = false := by
    simp [Token.joins, Terminal.joins, is]
  cases behind <;> simp [reach, alone]

theorem reach_plain {token : Token} (is : token.terminal.bracket? = none) (behind : List Token) :
    reach token behind =
      1 + (behind.takeWhile fun t => t.terminal = token.terminal).length := by
  have same : token.joins = fun t => decide (t.terminal = token.terminal) := by
    funext z
    simp [Token.joins, Terminal.joins, is, eq_comm]
  rw [reach, same]

theorem countRun_eq {a : Assembly} {token : Token} {behind : List Token}
    (is : token.terminal.bracket? = none) (rest : a.rest = token :: behind) :
    ({ a with position := a.position + 1 } : Assembly).countRun token.terminal =
      (reach token behind, { a with position := a.position + reach token behind }) := by
  have tail : a.tokens.toList.drop (a.position + 1) = behind := by
    rw [← List.drop_drop]
    simpa [Assembly.rest] using congrArg (List.drop 1) rest
  simp only [countRun, runEnd_eq, tail, reach_plain is]
  simp
  omega

/-- One step consumes one stretch and places it. -/
theorem step_eq {a : Assembly} (sound : a.Sound) {token : Token} {behind : List Token}
    (rest : a.rest = token :: behind) :
    a.step =
      match a.linkage.place token (reach token behind) with
      | .ok l =>
        (.ok l.program.back?,
          { a with
            position := a.position + reach token behind
            openLoops := l.openLoops
            count := l.program.size
            program := l.program })
      | .error e => (.error e, { a with position := a.position + reach token behind }) := by
  have next : a.nextToken = (some token, { a with position := a.position + 1 }) := by
    simp [nextToken, getElem?_position, rest]
  have plain (is : token.terminal.bracket? = none) := countRun_eq is rest
  have single {bracket : Bracket} (is : token.terminal.bracket? = some bracket) :=
    reach_bracket is behind
  unfold step emit Linkage.place
  simp only [next]
  rcases terminal : token.terminal with symbol | name
  · cases symbol
    case loopStart =>
      rw [single (congrArg Terminal.bracket? terminal)]
      simp [openLoop, append, linkage, sound.count]
    case loopEnd =>
      rw [single (congrArg Terminal.bracket? terminal)]
      cases loops : a.openLoops with
      | nil => simp [closeLoop, linkage, loops]
      | cons loop outer =>
        have inside := sound.inside loop (by simp [linkage, loops])
        have inside : loop.index < a.program.size := inside
        simp [closeLoop, linkage, loops, inside, append, sound.count]
    all_goals
      rw [terminal] at plain
      simp only [plain rfl]
      simp [append, linkage, sound.count]
  · rw [terminal] at plain
    simp [plain rfl]

theorem step_eq_of_rest_nil {a : Assembly} (rest : a.rest = []) :
    a.step = (a.linkage.finish.map fun _ => none, a) := by
  have next : a.nextToken = (none, a) := by
    simp [nextToken, getElem?_position, rest]
  simp only [step, emit, next, Linkage.finish, linkage]
  cases a.openLoops <;> rfl

/-- Assembly links the stretches of what it has not consumed yet. -/
theorem assemble_eq_link {a : Assembly} (sound : a.Sound) :
    a.assemble.1 = a.linkage.link (stretches Token.joins a.rest) := by
  fun_induction assemble a with
  | case1 a i b step ih =>
    cases rest : a.rest with
    | nil =>
      rw [step_eq_of_rest_nil rest] at step
      cases finished : a.linkage.finish <;> simp [finished, Except.map] at step
    | cons token behind =>
      rw [step_eq sound rest] at step
      rw [stretches_token_cons, Linkage.link]
      cases placed : a.linkage.place token (reach token behind) with
      | error e => simp [placed] at step
      | ok l =>
        simp only [placed, Prod.mk.injEq] at step
        obtain ⟨-, rfl⟩ := step
        rw [ih ⟨rfl, sound.inside.place placed⟩]
        simp only [linkage, ← rest, Assembly.rest, List.drop_drop]
  | case2 a b step =>
    cases rest : a.rest with
    | nil =>
      rw [step_eq_of_rest_nil rest] at step
      cases loops : a.openLoops with
      | nil =>
        obtain rfl : a = b := (Prod.mk.inj step).2
        simp [stretches, Linkage.link, Linkage.finish, linkage, loops]
      | cons loop outer => simp [Linkage.finish, linkage, loops, Except.map] at step
    | cons token behind =>
      rw [step_eq sound rest] at step
      cases placed : a.linkage.place token (reach token behind) with
      | error e => simp [placed] at step
      | ok l =>
        have size := (Linkage.place_grows placed).1
        simp [placed, Array.back?_eq_none_iff] at step
        simp [step.1] at size
  | case3 a e b step =>
    cases rest : a.rest with
    | nil =>
      rw [step_eq_of_rest_nil rest] at step
      cases finished : a.linkage.finish with
      | ok program => simp [finished, Except.map] at step
      | error e' =>
        obtain ⟨rfl, -⟩ : e' = e ∧ a = b := by simpa [finished, Except.map] using step
        exact finished.symm
    | cons token behind =>
      rw [step_eq sound rest] at step
      rw [stretches_token_cons, Linkage.link]
      cases placed : a.linkage.place token (reach token behind) with
      | ok l => simp [placed] at step
      | error e' =>
        simp only [placed, Prod.mk.injEq, Except.error.injEq] at step
        rw [step.1]

theorem ofTokens_eq_link (tokens : Array Token) :
    Program.ofTokens tokens = ({} : Linkage).link (stretches Token.joins tokens.toList) :=
  assemble_eq_link (sound_ofTokens tokens)

end Assembly

namespace Block

/-- The code of a folded block that begins at an index. Its jumps go to the indices of their
partners. -/
def code (start : Nat) : Block (Action × Nat) → List Instruction
  | stop => []
  | action (a, n) rest => .ofSymbol a.symbol n :: rest.code (start + 1)
  | loop body rest =>
    let inner := body.code (start + 1)
    let close := start + inner.length + 1
    .ofSymbol .loopStart close :: (inner ++ .ofSymbol .loopEnd start :: rest.code (close + 1))

theorem modify_behind (p : Program) (i : Instruction) (inner : Array Instruction)
    (f : Instruction → Instruction) :
    (p ++ #[i] ++ inner).modify p.size f = p ++ #[f i] ++ inner := by
  apply Array.ext'
  simp only [Array.toList_modify, Array.toList_append, List.append_assoc, ← Array.length_toList]
  generalize p.toList = before
  induction before with
  | nil => rfl
  | cons x before ih => simpa using ih

theorem place_action (l : Linkage) {token : Token} {a : Action}
    (is : token.terminal = .known a.symbol) (n : Nat) :
    l.place token n =
      .ok { l with program := l.program ++ #[Instruction.ofSymbol a.symbol n] } := by
  rw [Linkage.place, is]
  cases a <;> simp [Action.symbol]

/-- Stretches of a folded block link to its code, and leave the loops that were open before. -/
theorem link_pieces (b : Block (Action × Nat)) (l : Linkage) {given : List (Token × Nat)}
    (spelled : given.map (fun p => (p.1.terminal, p.2)) =
      b.pieces.map fun p => (Terminal.known p.1, p.2))
    (rest : List (Token × Nat)) :
    l.link (given ++ rest) =
      ({ l with program := l.program ++ (b.code l.program.size).toArray } : Linkage).link rest := by
  induction b generalizing l given rest with
  | stop =>
    obtain rfl : given = [] := by simpa using spelled
    simp [code]
  | action p tail ih =>
    obtain ⟨a, n⟩ := p
    rw [pieces_action, List.map_cons] at spelled
    obtain ⟨⟨token, length⟩, given, rfl, head, tailSpelled⟩ := List.map_eq_cons_iff.1 spelled
    obtain ⟨is, rfl⟩ := Prod.mk.inj head
    rw [List.cons_append, Linkage.link, place_action l is]
    simp only
    rw [ih _ tailSpelled rest]
    simp [code]
  | loop body tail ihBody ihTail =>
    rw [pieces_loop, List.map_cons, List.map_append, List.map_cons] at spelled
    obtain ⟨⟨openToken, n⟩, given, rfl, head, bothSpelled⟩ := List.map_eq_cons_iff.1 spelled
    obtain ⟨given, behind, rfl, bodySpelled, restSpelled⟩ := List.map_eq_append_iff.1 bothSpelled
    obtain ⟨⟨closeToken, m⟩, behind, rfl, head', tailSpelled⟩ := List.map_eq_cons_iff.1 restSpelled
    obtain ⟨opens, rfl⟩ := Prod.mk.inj head
    obtain ⟨closes, rfl⟩ := Prod.mk.inj head'
    simp only at opens closes
    rw [List.cons_append, Linkage.link, Linkage.place, opens, List.append_assoc]
    simp only
    rw [ihBody _ bodySpelled, List.cons_append, Linkage.link, Linkage.place, closes]
    simp only [Array.push_eq_append]
    rw [modify_behind, ihTail _ tailSpelled]
    simp [code, Instruction.ofSymbol, Nat.add_assoc]

end Block

def Block.program (b : Block Action) : Program := (b.fold.code 0).toArray

theorem Block.stretches_of_symbols {tokens : List Token} {b : Block Action}
    (spelled : tokens.map Token.terminal = b.symbols.map .known) :
    (stretches Token.joins tokens).map (fun p => (p.1.terminal, p.2)) =
      b.fold.pieces.map fun p => (Terminal.known p.1, p.2) := by
  calc (stretches Token.joins tokens).map (fun p => (p.1.terminal, p.2))
      = stretches Terminal.joins (tokens.map Token.terminal) :=
        (stretches_map Token.terminal (fun _ _ => rfl) _).symm
    _ = stretches Terminal.joins (b.symbols.map .known) := by rw [spelled]
    _ = (stretches Symbol.joins b.symbols).map fun p => (Terminal.known p.1, p.2) :=
        stretches_map Terminal.known Terminal.joins_known _
    _ = b.fold.pieces.map fun p => (Terminal.known p.1, p.2) := by rw [b.stretches_symbols]

theorem Program.ofTokens_of_symbols {tokens : Array Token} {b : Block Action}
    (spelled : tokens.toList.map Token.terminal = b.symbols.map .known) :
    Program.ofTokens tokens = .ok b.program := by
  have linked := b.fold.link_pieces {} (Block.stretches_of_symbols spelled) []
  rw [List.append_nil, ← Assembly.ofTokens_eq_link] at linked
  rw [linked]
  simp [Linkage.link, Linkage.finish, Block.program]

theorem Program.ofSource_of_symbols {source : Source} {b : Block Action}
    (spelled : b.symbols = source.symbols) : Program.ofSource source = .ok b.program :=
  Program.ofTokens_of_symbols (by rw [source.terminals_tokens, spelled])

end TapeVM
