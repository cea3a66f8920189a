import Mathlib.Data.List.TakeWhile
import TapeVM.Proofs.Relocation

/-! Assembly under way: what holds between any two of its steps, and in what state an error leaves
it. The tokens consumed so far fall into balanced stretches with one open loop between each two of
them. The program is made up alike: the program of each stretch, relocated, and between them the
jumps that still wait for their targets. -/
namespace TapeVM

open Nesting

namespace Assembly

def consumed (a : Assembly) : List Token := a.tokens.toList.take a.position

/-- The states of an assembly between its steps: it begins with nothing consumed, and goes on with
an instruction that is emitted and added. -/
inductive Reached (tokens : Array Token) : Assembly → Prop where
  | start : Reached tokens (ofTokens tokens)
  | round {a b : Assembly} {i : Instruction} (earlier : Reached tokens a)
      (emitted : a.emit = (.ok (some i), b)) : Reached tokens (b.append i)

/-- What tokens with open loops have been linked to. -/
inductive Standing : List Token → Linkage → Prop where
  | closed {before : List Token} {p : Program} (accepted : Program.ofTokens before.toArray = .ok p) :
      Standing before ⟨[], p⟩
  | opened {before inside : List Token} {token : Token} {l : Linkage} {q : Program}
      (outer : Standing before l) (opens : token.terminal = .known .loopStart)
      (accepted : Program.ofTokens inside.toArray = .ok q) :
      Standing (before ++ token :: inside)
        ⟨⟨token.location, l.program.size⟩ :: l.openLoops,
          l.program ++ #[⟨.jumpIfZero, Instruction.unresolved⟩] ++
            q.relocate (l.program.size + 1)⟩

variable {tokens : Array Token} {before behind chunk : List Token} {token : Token}
  {l next : Linkage} {p q : Program} {a b : Assembly} {i : Instruction}

theorem takeWhile_bracket {bracket : Bracket} (is : token.terminal.bracket? = some bracket)
    (behind : List Token) : behind.takeWhile token.joins = [] := by
  have length := reach_bracket is behind
  rw [reach] at length
  exact List.length_eq_zero_iff.1 (by omega)

theorem ofTokens_run {c : Action} (is : token.terminal = .known c.symbol) (behind : List Token) :
    Program.ofTokens (token :: behind.takeWhile token.joins).toArray =
      .ok #[.ofSymbol c.symbol (reach token behind)] := by
  have whole : (behind.takeWhile token.joins).dropWhile token.joins = [] :=
    List.dropWhile_eq_nil_iff.2 fun _ member => List.mem_takeWhile_imp member
  have single : stretches Token.joins (token :: behind.takeWhile token.joins) =
      [(token, reach token behind)] := by
    rw [stretches_eq_takeWhile Token.joins_eq_of_joins, List.takeWhile_idem, whole]
    rfl
  rw [ofTokens_eq_link, single, Linkage.link, Block.place_action {} is]
  rfl

theorem apart_run (token : Token) (behind : List Token) :
    Token.Apart (token :: behind.takeWhile token.joins) (behind.dropWhile token.joins) := by
  intro x last y first
  have differs : token.joins y = false := by
    have := List.head?_dropWhile_not token.joins behind
    rwa [Option.mem_def.1 first] at this
  rcases List.mem_cons.1 (List.mem_of_getLast? last) with rfl | member
  · exact differs
  · rw [Token.joins_eq_of_joins token x (List.mem_takeWhile_imp member)]
    exact differs

theorem apart_bracket {bracket : Bracket} (is : token.terminal.bracket? = some bracket)
    (before behind : List Token) : Token.Apart before (token :: behind) := by
  rintro x - y first
  obtain rfl : token = y := by simpa using first
  by_contra joined
  obtain ⟨same, plain⟩ := Terminal.joins_iff.1 (Bool.not_eq_false _ ▸ joined)
  rw [same, is] at plain
  cases plain

theorem Standing.extend (standing : Standing before l)
    (accepted : Program.ofTokens chunk.toArray = .ok q) (apart : Token.Apart before chunk) :
    Standing (before ++ chunk) ⟨l.openLoops, l.program ++ q.relocate l.program.size⟩ := by
  cases standing with
  | closed first =>
    have both := ofTokens_append first accepted apart
    exact .closed (by simpa using both)
  | @opened before inside token l q' outer opens first =>
    rw [List.append_cons] at apart
    have both := ofTokens_append first accepted apart.of_append
    have opened : Standing (before ++ token :: (inside ++ chunk)) _ :=
      .opened outer opens (by simpa using both)
    simpa [Int.add_comm, Int.add_left_comm, Int.add_assoc] using opened

/-- Closing a loop completes its jump, and the loop becomes part of what stands around it. -/
theorem Standing.close (standing : Standing before l) (closes : token.terminal = .known .loopEnd)
    (placed : l.place token 1 = .ok next) : Standing (before ++ [token]) next := by
  rw [Linkage.place, closes] at placed
  cases standing with
  | closed first => cases placed
  | @opened before inside opening l q outer opens first =>
    obtain rfl := Except.ok.inj placed
    -- The whole loop has a program of its own, so it extends what stands around it.
    have loop : Program.ofTokens (opening :: (inside ++ [token])).toArray = .ok
        (#[⟨.jumpIfZero, q.size + 1⟩] ++ q.relocate 1 ++ #[⟨.jumpIfNonZero, 0⟩]) := by
      simpa using ofTokens_enclose first opens closes
    have extended := outer.extend loop (apart_bracket (by rw [opens]; rfl) _ _)
    rw [List.append_assoc, List.cons_append, Block.modify_behind]
    simpa [Instruction.relocate, Opcode.bracket?, Instruction.ofSymbol, Opcode.ofSymbol,
      Int.add_comm, Int.add_left_comm] using extended

theorem Standing.place (standing : Standing before l)
    (placed : l.place token (reach token behind) = .ok next)
    (apart : Token.Apart before (token :: behind.takeWhile token.joins)) :
    Standing (before ++ token :: behind.takeWhile token.joins) next := by
  rcases terminal_cases token.terminal with is | is | ⟨c, is⟩ | ⟨name, is⟩
  · have bracket : token.terminal.bracket? = some .opening := by rw [is]; rfl
    rw [takeWhile_bracket bracket]
    rw [Linkage.place, is] at placed
    obtain rfl := Except.ok.inj placed
    simpa [Instruction.ofSymbol, Opcode.ofSymbol, Program.relocate] using
      Standing.opened standing is ofTokens_empty
  · have bracket : token.terminal.bracket? = some .closing := by rw [is]; rfl
    rw [takeWhile_bracket bracket]
    rw [reach_bracket bracket] at placed
    exact standing.close is placed
  · rw [Block.place_action l is] at placed
    obtain rfl := Except.ok.inj placed
    have extended := standing.extend (ofTokens_run is behind) apart
    simpa [Program.relocate, Instruction.relocate, Instruction.ofSymbol] using extended
  · rw [Linkage.place, is] at placed
    cases placed

theorem Standing.pending (standing : Standing before l) :
    Pending before (l.openLoops.map OpenLoop.location) := by
  induction standing with
  | closed accepted => exact .balanced (balanced_of_ok accepted).1
  | opened outer opens accepted ih => exact .opened ih opens (balanced_of_ok accepted).1

theorem brackets_opened (p q : Program) (target d : Int) :
    (p ++ #[⟨.jumpIfZero, target⟩] ++ q.relocate d : Program).brackets =
      p.brackets ++ some .opening :: q.brackets := by
  have opens : Opcode.jumpIfZero.bracket? = some .opening := rfl
  simp [opens]

theorem Standing.marks_eq (standing : Standing before l) :
    marks (Token.brackets before) = marks l.program.brackets := by
  induction standing with
  | closed accepted => exact marks_of_ok accepted
  | opened outer opens accepted ih =>
    have inner := marks_of_ok accepted
    rw [brackets_opened]
    simp only [marks] at ih inner
    simp [marks, ih, inner, opens, Terminal.bracket?, Symbol.bracket?]

/-- The jumps of a program under assembly. Those of the open loops wait for their targets, and they
are the ones that nothing closes; every other jump goes to its partner. -/
structure Paired (l : Linkage) : Prop where
  unclosed : Unclosed l.program.brackets (l.openLoops.map OpenLoop.index)
  waiting : ∀ loop ∈ l.openLoops,
    l.program[loop.index]? = some ⟨.jumpIfZero, Instruction.unresolved⟩
  opening : ∀ (i : Nat) target, l.program[i]? = some ⟨.jumpIfZero, target⟩ →
    i ∉ l.openLoops.map OpenLoop.index → ∃ j : Nat, Matched l.program.brackets i j ∧ target = j
  closing : ∀ (j : Nat) target, l.program[j]? = some ⟨.jumpIfNonZero, target⟩ →
    ∃ i : Nat, Matched l.program.brackets i j ∧ target = i

theorem getElem?_opening (p inner : Program) (x : Instruction) :
    (p ++ #[x] ++ inner)[p.size]? = some x := by
  rw [Array.append_assoc, Array.getElem?_append_right (Nat.le_refl _), Nat.sub_self,
    Array.getElem?_append_left Nat.one_pos]
  rfl

theorem getElem?_opened {inner : Program} {x y : Instruction} {i : Nat}
    (here : (p ++ #[x] ++ inner)[i]? = some y) :
    (i < p.size ∧ p[i]? = some y) ∨ (i = p.size ∧ y = x) ∨
      ∃ k, i = p.size + (k + 1) ∧ inner[k]? = some y := by
  rcases Nat.lt_trichotomy i p.size with before | rfl | behind
  · rw [Array.append_assoc, Array.getElem?_append_left before] at here
    exact .inl ⟨before, here⟩
  · rw [getElem?_opening] at here
    exact .inr (.inl ⟨rfl, (Option.some.inj here).symm⟩)
  · obtain ⟨k, rfl⟩ := Nat.exists_eq_add_of_lt behind
    rw [Array.getElem?_append_right (by simp), Array.size_append, Array.size_singleton,
      show p.size + k + 1 - (p.size + 1) = k by omega] at here
    exact .inr (.inr ⟨k, Nat.add_assoc _ _ _, here⟩)

theorem Standing.paired (standing : Standing before l) : Paired l := by
  induction standing with
  | @closed before p accepted =>
    have linked := linked_of_ok accepted
    exact ⟨.of_balanced (balanced_of_ok accepted).2, by simp,
      fun i target here _ => linked.opening i target here, linked.closing⟩
  | @opened before inside token l q outer opens accepted ih =>
    have linked := linked_of_ok accepted
    have jumps : Opcode.jumpIfZero.bracket? ≠ none := Option.some_ne_none _
    have jumps' : Opcode.jumpIfNonZero.bracket? ≠ none := Option.some_ne_none _
    have moved {i j : Nat} (matched : Matched q.brackets i j) :
        Matched (l.program.brackets ++ some .opening :: q.brackets) (l.program.size + (i + 1))
          (l.program.size + (j + 1)) := by
      rw [← Program.length_brackets]
      exact (matched.cons _).append_left _
    constructor
    · rw [brackets_opened, List.map_cons, ← Program.length_brackets]
      exact ih.unclosed.opened (balanced_of_ok accepted).2
    · intro loop member
      rcases List.mem_cons.1 member with rfl | earlier
      · exact getElem?_opening _ _ _
      · have waits := ih.waiting loop earlier
        have inside := (Array.getElem?_eq_some_iff.1 waits).1
        rw [Array.append_assoc, Array.getElem?_append_left inside, waits]
    · intro i target here closed
      rw [List.map_cons, List.mem_cons, not_or] at closed
      rw [brackets_opened]
      rcases getElem?_opened here with ⟨-, first⟩ | ⟨same, -⟩ | ⟨k, rfl, behind⟩
      · obtain ⟨j, matched, value⟩ := ih.opening i target first closed.2
        exact ⟨j, matched.append_right _, value⟩
      · exact (closed.1 same).elim
      · obtain ⟨target, found, rfl⟩ := Program.exists_of_relocate jumps behind
        obtain ⟨j, matched, rfl⟩ := linked.opening k target found
        exact ⟨_, moved matched, by omega⟩
    · intro j target here
      rw [brackets_opened]
      rcases getElem?_opened here with ⟨-, first⟩ | ⟨-, same⟩ | ⟨k, rfl, behind⟩
      · obtain ⟨i, matched, value⟩ := ih.closing j target first
        exact ⟨i, matched.append_right _, value⟩
      · cases same
      · obtain ⟨target, found, rfl⟩ := Program.exists_of_relocate jumps' behind
        obtain ⟨i, matched, rfl⟩ := linked.closing k target found
        exact ⟨_, moved matched, by omega⟩

theorem Paired.mutual (paired : Paired l) {i j : Nat} (matched : Matched l.program.brackets i j) :
    l.program[i]? = some ⟨.jumpIfZero, j⟩ ∧ l.program[j]? = some ⟨.jumpIfNonZero, i⟩ := by
  have closed : i ∉ l.openLoops.map OpenLoop.index :=
    fun member => ((paired.unclosed.mem_iff i).1 member).2 j matched
  exact Program.mutual_of_matched matched
    (fun target here => paired.opening i target here closed) (paired.closing j)

/-- What every step keeps. -/
structure Underway (tokens : Array Token) (a : Assembly) : Prop where
  same : a.tokens = tokens
  sound : a.Sound
  within : a.position ≤ tokens.size
  apart : Token.Apart a.consumed a.rest
  standing : Standing a.consumed a.linkage

theorem underway_ofTokens (tokens : Array Token) : Underway tokens (ofTokens tokens) where
  same := rfl
  sound := sound_ofTokens tokens
  within := Nat.zero_le _
  apart := by simp [Token.Apart, consumed, ofTokens]
  standing := .closed ofTokens_empty

theorem Underway.consumed_eq (underway : Underway tokens a) :
    a.consumed = tokens.toList.take a.position := by
  rw [consumed, underway.same]

theorem Underway.getElem?_of_consumed (underway : Underway tokens a) {k : Nat}
    (here : a.consumed[k]? = some token) : tokens[k]? = some token := by
  rw [underway.consumed_eq, List.getElem?_take] at here
  split at here
  · simpa using here
  · cases here

/-- A step goes on by one run. -/
theorem Underway.step (underway : Underway tokens a) (stepped : a.step = (.ok (some i), b)) :
    Underway tokens b := by
  cases rest : a.rest with
  | nil =>
    rw [step_eq_of_rest_nil rest] at stepped
    cases finished : a.linkage.finish <;> simp [finished, Except.map] at stepped
  | cons token behind =>
    rw [step_eq underway.sound rest] at stepped
    cases placed : a.linkage.place token (reach token behind) with
    | error e => simp [placed] at stepped
    | ok l =>
      simp only [placed, Prod.mk.injEq] at stepped
      obtain ⟨-, rfl⟩ := stepped
      have cut : a.tokens.toList.drop a.position = token :: behind := rest
      have apart : Token.Apart a.consumed (token :: behind) := rest ▸ underway.apart
      have further : a.tokens.toList.take (a.position + reach token behind) =
          a.consumed ++ token :: behind.takeWhile token.joins := by
        rw [List.take_add, cut, take_reach]
        rfl
      have left : a.tokens.toList.drop (a.position + reach token behind) =
          behind.dropWhile token.joins := by
        rw [← List.drop_drop, cut, drop_reach]
      refine ⟨underway.same, ⟨rfl, underway.sound.inside.place placed⟩, ?_, ?_, ?_⟩
      · have room := congrArg List.length cut
        have run := (List.takeWhile_prefix (l := behind) token.joins).length_le
        rw [List.length_drop, Array.length_toList, underway.same, List.length_cons] at room
        simp only [reach]
        omega
      · simp only [consumed, Assembly.rest, further, left]
        intro x last
        rw [List.getLast?_append, List.getLast?_cons, Option.some_or, ← List.getLast?_cons] at last
        exact apart_run token behind x last
      · simp only [consumed, further]
        exact underway.standing.place placed fun x last y first => apart x last y first

theorem step_eq_ok_iff :
    a.step = (.ok (some i), b) ↔ ∃ c, a.emit = (.ok (some i), c) ∧ c.append i = b := by
  rw [step]
  constructor
  · intro stepped
    split at stepped
    · rename_i j c emitted
      simp only [Prod.mk.injEq, Except.ok.injEq, Option.some.injEq] at stepped
      obtain ⟨rfl, rfl⟩ := stepped
      exact ⟨c, emitted, rfl⟩
    · cases stepped
    · cases stepped
  · rintro ⟨c, emitted, rfl⟩
    rw [emitted]

theorem assemble_of_step (stepped : a.step = (.ok (some i), b)) : a.assemble = b.assemble := by
  rw [assemble]
  split <;> simp_all

theorem assemble_of_end (stepped : a.step = (.ok none, b)) : a.assemble = (.ok b.program, b) := by
  rw [assemble]
  split <;> simp_all

theorem assemble_of_error {e : Error} (stepped : a.step = (.error e, b)) :
    a.assemble = (.error e, b) := by
  rw [assemble]
  split <;> simp_all

theorem Reached.underway (reached : Reached tokens a) : Underway tokens a := by
  induction reached with
  | start => exact underway_ofTokens tokens
  | round earlier emitted ih => exact ih.step (step_eq_ok_iff.2 ⟨_, emitted, rfl⟩)

/-- Going on from any state of an assembly leads to the same end. -/
theorem Reached.assemble_eq (reached : Reached tokens a) :
    a.assemble = (ofTokens tokens).assemble := by
  induction reached with
  | start => rfl
  | round earlier emitted ih =>
    rw [← ih, assemble_of_step (step_eq_ok_iff.2 ⟨_, emitted, rfl⟩)]

theorem Reached.exists_last (reached : Reached tokens a) {e : Error}
    (failed : a.assemble = (.error e, b)) :
    ∃ last, Reached tokens last ∧ last.step = (.error e, b) := by
  fun_induction assemble a with
  | case1 a i next stepped ih =>
    obtain ⟨c, emitted, rfl⟩ := step_eq_ok_iff.1 stepped
    exact ih (.round reached emitted) failed
  | case2 a next stepped => cases failed
  | case3 a e' next stepped =>
    cases failed
    exact ⟨a, reached, stepped⟩

theorem place_eq_error {n : Nat} {e : Error} (failed : l.place token n = .error e) :
    (token.terminal = .known .loopEnd ∧ l.openLoops = [] ∧
        e = .unexpectedClosing token.location) ∨
      ∃ name, token.terminal = .foreign name ∧ e = .unknownSymbol name := by
  rcases terminal_cases token.terminal with is | is | ⟨c, is⟩ | ⟨name, is⟩
  · rw [Linkage.place, is] at failed
    cases failed
  · rw [Linkage.place, is] at failed
    cases loops : l.openLoops with
    | nil =>
      simp only [loops] at failed
      exact .inl ⟨is, rfl, (Except.error.inj failed).symm⟩
    | cons loop outer => simp [loops] at failed
  · rw [Block.place_action l is] at failed
    cases failed
  · rw [Linkage.place, is] at failed
    exact .inr ⟨name, is, (Except.error.inj failed).symm⟩

theorem Standing.ofTokens_eq (standing : Standing before l) (closed : l.openLoops = []) :
    Program.ofTokens before.toArray = .ok l.program := by
  cases standing with
  | closed accepted => exact accepted
  | opened outer opens accepted => cases closed

/-- A bracket without a partner is met where no loop is open. -/
theorem Underway.closing (underway : Underway tokens a) {location : Location}
    (failed : a.step = (.error (.unexpectedClosing location), b)) :
    tokens[a.position]? = some ⟨.known .loopEnd, location⟩ ∧ a.openLoops = [] ∧
      b = { a with position := a.position + 1 } := by
  cases rest : a.rest with
  | nil =>
    rw [step_eq_of_rest_nil rest, Linkage.finish] at failed
    cases loops : a.linkage.openLoops <;> simp [loops, Except.map] at failed
  | cons token behind =>
    rw [step_eq underway.sound rest] at failed
    cases placed : a.linkage.place token (reach token behind) with
    | ok l => simp [placed] at failed
    | error e =>
      simp only [placed, Prod.mk.injEq, Except.error.injEq] at failed
      obtain ⟨rfl, rfl⟩ := failed
      rcases place_eq_error placed with ⟨is, closed, same⟩ | ⟨name, -, impossible⟩
      · have bracket : token.terminal.bracket? = some .closing := by rw [is]; rfl
        refine ⟨?_, closed, by rw [reach_bracket bracket]⟩
        rw [← underway.same, getElem?_position, rest, List.head?_cons, Error.unexpectedClosing.inj same,
          ← is]
      · cases impossible

theorem Underway.unclosed (underway : Underway tokens a) {location : Location} {remaining : Nat}
    (failed : a.step = (.error (.unclosed location remaining), b)) :
    a.position = tokens.size ∧ b = a := by
  cases rest : a.rest with
  | nil =>
    rw [step_eq_of_rest_nil rest] at failed
    have short := List.drop_eq_nil_iff.1 rest
    rw [Array.length_toList, underway.same] at short
    exact ⟨Nat.le_antisymm underway.within short, (Prod.mk.inj failed).2.symm⟩
  | cons token behind =>
    rw [step_eq underway.sound rest] at failed
    cases placed : a.linkage.place token (reach token behind) with
    | ok l => simp [placed] at failed
    | error e =>
      simp only [placed, Prod.mk.injEq, Except.error.injEq] at failed
      obtain ⟨rfl, -⟩ := failed
      rcases place_eq_error placed with ⟨-, -, impossible⟩ | ⟨name, -, impossible⟩ <;>
        cases impossible

theorem not_matched_of_balanced {l : List (Option Bracket)} {k : Nat} (level : Balanced (l.take k))
    (i : Nat) : ¬ Matched l i k := by
  intro matched
  have back := matched.depth_after
  have above := level.above i
  have level := level.level
  rw [depth_take_add_one, matched.closing, level] at back
  rw [List.take_take, Nat.min_eq_left (Nat.le_of_lt matched.lt)] at above
  simp at back
  omega

end Assembly

/-- Between any two steps, assembly has consumed whole runs. Its open loops are the brackets of the
consumed tokens that are not closed, and their jumps are those of the program that are not closed
and hold the placeholder; every other jump is paired inside the program. Going on from there ends as
assembly from the start does. A bracket that closes too early leaves the program of the tokens
before it and no open loop; loops left open leave a state like any other, at the end of the tokens,
in which assembly fails again in the same way. -/
theorem assembly_stands_between_steps (tokens : Array Token) :
    (∀ a, Assembly.Reached tokens a →
      a.count = a.program.size ∧
      Token.Apart a.consumed a.rest ∧
      (∃ places, Unclosed (Token.brackets a.consumed) places ∧
        List.Forall₂ (fun loop k => tokens[k]? = some ⟨.known .loopStart, loop.location⟩)
          a.openLoops places) ∧
      marks (Token.brackets a.consumed) = marks a.program.brackets ∧
      Unclosed a.program.brackets (a.openLoops.map OpenLoop.index) ∧
      (∀ loop ∈ a.openLoops,
        a.program[loop.index]? = some ⟨.jumpIfZero, Instruction.unresolved⟩) ∧
      (∀ (i : Nat) target, a.program[i]? = some ⟨.jumpIfZero, target⟩ →
        i ∉ a.openLoops.map OpenLoop.index → ∃ j : Nat, target = j ∧
          Matched a.program.brackets i j ∧ a.program[j]? = some ⟨.jumpIfNonZero, i⟩) ∧
      (∀ (j : Nat) target, a.program[j]? = some ⟨.jumpIfNonZero, target⟩ → ∃ i : Nat, target = i ∧
        Matched a.program.brackets i j ∧ a.program[i]? = some ⟨.jumpIfZero, j⟩) ∧
      a.assemble = (Assembly.ofTokens tokens).assemble) ∧
    (∀ location a,
      (Assembly.ofTokens tokens).assemble = (.error (.unexpectedClosing location), a) →
      ∃ k, tokens[k]? = some ⟨.known .loopEnd, location⟩ ∧
        (∀ i, ¬ Matched (Token.brackets tokens.toList) i k) ∧ a.position = k + 1 ∧
        a.openLoops = [] ∧ Program.ofTokens (tokens.take k) = .ok a.program) ∧
    ∀ location remaining a,
      (Assembly.ofTokens tokens).assemble = (.error (.unclosed location remaining), a) →
      a.position = tokens.size ∧ a.consumed = tokens.toList ∧ Assembly.Reached tokens a ∧
        a.assemble = (.error (.unclosed location remaining), a) := by
  refine ⟨?_, ?_, ?_⟩
  · intro a reached
    have underway := reached.underway
    have paired := underway.standing.paired
    obtain ⟨places, unclosed, stand⟩ := underway.standing.pending.exists_unclosed
    refine ⟨underway.sound.count, underway.apart, ⟨places, unclosed, ?_⟩, underway.standing.marks_eq,
      paired.unclosed, paired.waiting, ?_, ?_, reached.assemble_eq⟩
    · refine (List.forall₂_map_left_iff.1 stand).imp fun loop k here => ?_
      exact underway.getElem?_of_consumed here
    · intro i target here closed
      obtain ⟨j, matched, value⟩ := paired.opening i target here closed
      exact ⟨j, value, matched, (paired.mutual matched).2⟩
    · intro j target here
      obtain ⟨i, matched, value⟩ := paired.closing j target here
      exact ⟨i, value, matched, (paired.mutual matched).1⟩
  · intro location a failed
    obtain ⟨last, reached, stopped⟩ := Assembly.Reached.start.exists_last failed
    have underway := reached.underway
    obtain ⟨here, closed, rfl⟩ := underway.closing stopped
    have accepted := underway.standing.ofTokens_eq closed
    have level := (Assembly.balanced_of_ok accepted).1
    rw [underway.consumed_eq] at accepted level
    refine ⟨last.position, here, Assembly.not_matched_of_balanced ?_, rfl, closed, ?_⟩
    · simpa [Token.brackets, List.map_take] using level
    · have same : tokens.take last.position = (tokens.toList.take last.position).toArray :=
        Array.ext' (by simp)
      rw [same]
      exact accepted
  · intro location remaining a failed
    obtain ⟨last, reached, stopped⟩ := Assembly.Reached.start.exists_last failed
    obtain ⟨whole, rfl⟩ := reached.underway.unclosed stopped
    refine ⟨whole, ?_, reached, Assembly.assemble_of_error stopped⟩
    rw [reached.underway.consumed_eq, whole, ← Array.length_toList, List.take_length]

/-- The outer of two loops is left open. -/
theorem assembly_stands_between_steps_unclosed :
    let tokens : Array Token := #[⟨.known .increment, ⟨1, 1⟩⟩, ⟨.known .loopStart, ⟨1, 2⟩⟩,
      ⟨.known .loopStart, ⟨1, 3⟩⟩, ⟨.known .loopEnd, ⟨1, 4⟩⟩]
    ∃ a, (Assembly.ofTokens tokens).assemble = (.error (.unclosed ⟨1, 2⟩ 1), a) ∧
      a.position = 4 ∧ a.count = a.program.size ∧
      a.assemble = (.error (.unclosed ⟨1, 2⟩ 1), a) := by
  intro tokens
  have failed : (Assembly.ofTokens tokens).assemble.1 = .error (.unclosed ⟨1, 2⟩ 1) :=
    Assembly.eq_error_of_map (Assembly.ofTokens_eq_survey tokens)
  obtain ⟨between, -, unclosed⟩ := assembly_stands_between_steps tokens
  obtain ⟨whole, -, reached, again⟩ := unclosed ⟨1, 2⟩ 1 _ (Prod.ext failed rfl)
  exact ⟨_, Prod.ext failed rfl, whole, (between _ reached).1, again⟩

end TapeVM
