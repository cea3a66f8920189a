import Mathlib.Algebra.BigOperators.Group.List.Basic
import TapeVM.Proofs.Blame

/-! Columns of texts. A scan counts the bytes of a line and an excerpt its characters, so what an
excerpt of a text picks out is not always what the scan meant. -/
namespace TapeVM

open Nesting

theorem utf8Size_eq_one_iff {c : Char} : c.utf8Size = 1 ↔ c.toNat < 128 := by
  rw [Char.utf8Size_eq_one_iff, UInt32.le_iff_toNat_le]
  exact Nat.lt_succ_iff.symm

theorem length_le_sum_utf8Size (l : List Char) : l.length ≤ (l.map Char.utf8Size).sum := by
  have positive : ∀ size ∈ l.map Char.utf8Size, 1 ≤ size := by
    simpa using fun c _ => c.utf8Size_pos
  simpa using List.length_le_sum_of_one_le _ positive

theorem sum_utf8Size_eq_length_iff {l : List Char} :
    (l.map Char.utf8Size).sum = l.length ↔ ∀ c ∈ l, c.toNat < 128 := by
  induction l with
  | nil => simp
  | cons c l ih =>
    have := c.utf8Size_pos
    have := length_le_sum_utf8Size l
    rw [List.forall_mem_cons, ← ih, ← utf8Size_eq_one_iff, List.map_cons, List.sum_cons,
      List.length_cons]
    omega

theorem length_lt_sum_utf8Size {l : List Char} (large : ∃ c ∈ l, 128 ≤ c.toNat) :
    l.length < (l.map Char.utf8Size).sum := by
  obtain ⟨c, inside, large⟩ := large
  apply Nat.lt_of_le_of_ne (length_le_sum_utf8Size l)
  intro same
  exact Nat.not_lt.2 large (sum_utf8Size_eq_length_iff.1 same.symm c inside)

namespace Excerpt

/-- The excerpt of a text for the symbol at an offset, in the column that a scan gives to it. The
symbol is on the line of one of its rows, and no other row has anything picked out. There it is the
symbol if all that stands in front of it is ASCII; otherwise it is something behind it, or nothing.
-/
structure Aims (text : String) (offset line column : Nat) (symbol : Symbol)
    (front rest : List Char) (row : Row) : Prop where
  here : text.toList[offset]? = some symbol.char
  front_eq : front = (text.toList.take offset).rtakeWhile (· != '\n')
  line_eq : line = (text.toList.take offset).count '\n' + 1
  column_eq : column = (front.map Char.utf8Size).sum + 1
  whole : ∃ piece, (text.toList.splitOn '\n')[line - 1]? = some piece ∧
    front ++ symbol.char :: rest = trimReturns piece
  member : row ∈ rows line column 1 (.text text)
  number_eq : row.number = line
  stands : row.line = front ++ symbol.char :: rest
  only : ∀ other ∈ rows line column 1 (.text text), other.highlight ≠ none → other = row
  part : ∀ h ∈ row.highlight, h.before ++ h.marked ++ h.after = row.line
  exact_iff : row.highlight = some ⟨front, [symbol.char], rest⟩ ↔ ∀ c ∈ front, c.toNat < 128
  behind : (∃ c ∈ front, 128 ≤ c.toNat) → ∀ h ∈ row.highlight, front.length < h.before.length
  shown : ∀ file, ∃ above below,
    Excerpt.text file line column (String.singleton symbol.char) (.text text) =
      above ++ "\n" ++
        (Text.Style.bright.paint (Text.padLeft 5 (Decimal.natural line) ++ " |") ++ " " ++
          row.highlight.elim (String.ofList row.line) fun h =>
            String.ofList h.before ++ Text.Style.highlight.paint (String.ofList h.marked) ++
              String.ofList h.after) ++
        "\n" ++ below

/-- A column counted in bytes is that of the character if what stands in front is ASCII, and of
something behind it if not. -/
theorem highlight?_bytes_iff (front rest : List Char) (c : Char) :
    highlight? ((front.map Char.utf8Size).sum + 1) 1 (front ++ c :: rest) =
      some ⟨front, [c], rest⟩ ↔ ∀ c ∈ front, c.toNat < 128 := by
  rw [← sum_utf8Size_eq_length_iff]
  constructor
  · intro picked
    exact (of_highlight? picked).1.symm
  · intro same
    rw [same]
    exact highlight?_append front rest c 1

theorem exists_aims {text : String} {before after : List Char} {symbol : Symbol}
    (split : text.toList = before ++ symbol.char :: after) :
    ∃ (line column : Nat) (front rest : List Char) (row : Row),
      Coding.ofCharacters.place before = ⟨line, column⟩ ∧
      Aims text before.length line column symbol front rest row := by
  let front := before.rtakeWhile (· != '\n')
  let rest := trimReturns (after.takeWhile (· != '\n'))
  let bytes := (front.map Char.utf8Size).sum
  have other : symbol.char ≠ '\n' ∧ symbol.char ≠ '\r' := by cases symbol <;> decide
  have taken : text.toList.take before.length = before := by simp [split]
  have piece := getElem?_count_splitOn '\n' before after other.1
  rw [← split] at piece
  have whole := (trimReturns_append front (after.takeWhile (· != '\n')) other.2).symm
  have found : (Source.text text).lines[before.count '\n']? = some (front ++ symbol.char :: rest) := by
    rw [whole]
    exact (List.getElem?_map ..).trans (congrArg _ piece)
  have row := mem_rows found (bytes + 1) 1
  refine ⟨before.count '\n' + 1, bytes + 1, front, rest,
    ⟨before.count '\n' + 1, front ++ symbol.char :: rest, true,
      highlight? (bytes + 1) 1 (front ++ symbol.char :: rest)⟩, ?_, ?_⟩
  · rw [Coding.place_ofCharacters, Location.mk.injEq]
    exact ⟨Int.add_comm _ _, Int.add_comm _ _⟩
  · exact {
      here := by simp [split]
      front_eq := by rw [taken]
      line_eq := by rw [taken]
      column_eq := rfl
      whole := ⟨_, piece, whole⟩
      member := row
      number_eq := rfl
      stands := rfl
      only := fun other member picked => eq_of_number member row
        (Int.ofNat_inj.1 (number_of_highlight member picked))
      part := fun h picked => (of_highlight? picked).2
      exact_iff := highlight?_bytes_iff front rest symbol.char
      behind := fun large h picked => (of_highlight? picked).1 ▸ length_lt_sum_utf8Size large
      shown := fun file => by
        obtain ⟨above, below, shown⟩ := exists_text row file String.length_singleton
        refine ⟨above, below, shown.trans ?_⟩
        cases picked : highlight? (bytes + 1) 1 (front ++ symbol.char :: rest) <;> rfl }

end Excerpt

/-- Whatever text is refused for its brackets, the error names the bracket to be blamed and its
place; the excerpt of the text for that place picks out just this bracket exactly if the characters
in front of it on its line are ASCII. If one is not, something behind the bracket is picked out, or
nothing. -/
theorem blamed_bracket_of_text {text : String} {file : Option String} {failure : Failure}
    (refused : Engine.compile (.text text) file = .error failure) :
    ∃ (offset line column : Nat) (symbol : Symbol) (front rest : List Char) (row : Excerpt.Row)
      (message : String),
      let mark : Mark := ⟨some line, some column, some (String.singleton symbol.char)⟩
      (failure.diagnostic? = some (.parse message file mark) ∨
        ∃ unclosed : Int,
          failure.diagnostic? = some (.incomplete message file mark (some unclosed))) ∧
      Blamed (Coding.ofCharacters.nesting text.toList) offset ∧
      Excerpt.Aims text offset line column symbol front rest row := by
  obtain ⟨e, before, c, after, symbol, rfl, split, is, blamed, bracket⟩ :=
    Engine.exists_blamed_unit (k := Coding.ofCharacters) rfl refused
  obtain rfl := Symbol.ofChar?_eq_some_iff.1 is
  obtain ⟨line, column, front, rest, row, place, aims⟩ := Excerpt.exists_aims split
  obtain ⟨message, diagnostic⟩ := Failure.diagnostic?_of_bracket (place ▸ bracket) file
  exact ⟨before.length, line, column, symbol, front, rest, row, message, diagnostic, blamed, aims⟩

/-- Behind a character of two bytes the bracket is missed, and what follows it is picked out. -/
theorem blamed_bracket_of_text_accented :
    let text := "é]+"
    let failure : Failure := .assembling (.unexpectedClosing ⟨1, 3⟩) none
    Engine.compile (.text text) none = .error failure ∧
      ∃ offset front rest row, Blamed (Coding.ofCharacters.nesting text.toList) offset ∧
        Excerpt.Aims text offset 1 3 .loopEnd front rest row ∧
        row.highlight = some ⟨['é', ']'], ['+'], []⟩ := by
  intro text failure
  have first : Assembly.FirstDefect (Source.text text).tokens.toList 0 := by decide
  have rejected : Program.ofSource (.text text) = .error (.unexpectedClosing ⟨1, 3⟩) :=
    Assembly.ofTokens_of_closing first (by decide)
  have refused : Engine.compile (.text text) none = .error failure := by
    rw [Engine.compile, rejected]
    rfl
  have rows : Excerpt.rows (1 : Nat) (3 : Nat) 1 (.text text) =
      [⟨1, text.toList, true, some ⟨['é', ']'], ['+'], []⟩⟩] := by decide
  obtain ⟨offset, line, column, symbol, front, rest, row, message, named | ⟨_, named⟩, blamed,
    aims⟩ := blamed_bracket_of_text refused
  · have token : String.singleton symbol.char = "]" → symbol = .loopEnd := by
      cases symbol <;> decide
    obtain ⟨-, sameLine, sameColumn, sameToken⟩ : _ ∧ (1 : Int) = line ∧ (3 : Int) = column ∧
        "]" = String.singleton symbol.char := by
      simpa only [failure, Failure.diagnostic?, Failure.mark, Option.some.injEq,
        Diagnostic.parse.injEq, Mark.mk.injEq, true_and] using named
    obtain rfl : 1 = line := Int.ofNat_inj.1 sameLine
    obtain rfl : 3 = column := Int.ofNat_inj.1 sameColumn
    obtain rfl := token sameToken.symm
    refine ⟨refused, offset, front, rest, row, blamed, aims, ?_⟩
    have member := aims.member
    rw [rows, List.mem_singleton] at member
    rw [member]
  · cases named

end TapeVM
