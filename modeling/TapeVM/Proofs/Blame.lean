import TapeVM.Engine
import TapeVM.Proofs.Excerpts
import TapeVM.Proofs.Verdict

/-! Blame: the bracket that a refused source is refused for, found among all its bytes, and the
excerpt that shows it. The scan and the excerpt count lines and columns each in their own way; for
the bracket to be blamed they agree. -/
namespace TapeVM

namespace Nesting

/-- The bracket to be blamed: the first that closes more than was opened or, if there is none, the
last that is never closed. -/
inductive Blamed (l : List (Option Bracket)) (i : Nat) : Prop where
  | closing (here : l[i]? = some (some .closing)) (below : depth (l.take (i + 1)) < 0)
      (first : ∀ k ≤ i, 0 ≤ depth (l.take k))
  | opening (here : l[i]? = some (some .opening)) (above : ∀ k, 0 ≤ depth (l.take k))
      (unmatched : ∀ j, ¬ Matched l i j)
      (last : ∀ k, i < k → l[k]? = some (some .opening) → ∃ j, Matched l k j)

end Nesting

open Nesting

namespace Coding

variable {α : Type} (k : Coding α) {units : List α}

/-- The brackets of some units, with gaps for all that is none. -/
def nesting (units : List α) : List (Option Bracket) :=
  units.map fun unit => (k.symbol? unit).bind Symbol.bracket?

variable [DecidableEq α]

/-- A token for each unit, with an action in the place of each comment. -/
def filled (units : List α) : List Token :=
  units.zipIdx.map fun (unit, index) =>
    ⟨.known ((k.symbol? unit).getD .increment), k.place (units.take index)⟩

theorem brackets_filled (units : List α) : Token.brackets (k.filled units) = k.nesting units := by
  have bracket (unit : α) : ((k.symbol? unit).getD .increment).bracket? =
      (k.symbol? unit).bind Symbol.bracket? := by
    cases k.symbol? unit <;> rfl
  calc Token.brackets (k.filled units)
      = units.zipIdx.map fun place => (k.symbol? place.1).bind Symbol.bracket? := by
        simp [Token.brackets, filled, Function.comp_def, Terminal.bracket?, bracket]
    _ = k.nesting (units.zipIdx.map Prod.fst) := by rw [nesting, List.map_map]; rfl
    _ = k.nesting units := by rw [List.zipIdx_map_fst]

theorem getElem?_filled (units : List α) (i : Nat) :
    (k.filled units)[i]? = units[i]?.map fun unit =>
      ⟨.known ((k.symbol? unit).getD .increment), k.place (units.take i)⟩ := by
  rw [filled, List.getElem?_map, List.getElem?_zipIdx, Option.map_map]
  simp [Function.comp_def]

theorem exists_unit {i : Nat} {symbol : Symbol} {location : Location}
    (here : (k.filled units)[i]? = some ⟨.known symbol, location⟩) (bracket : symbol.bracket? ≠ none) :
    ∃ unit, units[i]? = some unit ∧ k.symbol? unit = some symbol ∧
      location = k.place (units.take i) := by
  rw [getElem?_filled, Option.map_eq_some_iff] at here
  obtain ⟨unit, found, same⟩ := here
  obtain ⟨terminal, rfl⟩ := Token.mk.inj same
  refine ⟨unit, found, ?_, rfl⟩
  cases is : k.symbol? unit with
  | some other =>
    rw [is] at terminal
    exact congrArg some (Terminal.known.inj terminal)
  | none =>
    obtain rfl : Symbol.increment = symbol := by simpa [is] using terminal
    exact (bracket rfl).elim

end Coding

namespace Assembly

variable {tokens : List Token} {i : Nat}

/-- Actions do not count for the verdict, so comments may be taken for actions. -/
theorem survey_filled {α : Type} [DecidableEq α] (k : Coding α) (units : List α) :
    survey [] (k.tokens units) = survey [] (k.filled units) := by
  have skip (places : List (Option Symbol × Location)) (locations : List Location) :
      survey locations (places.filterMap fun (symbol?, location) =>
        symbol?.map fun symbol => ⟨.known symbol, location⟩) =
      survey locations (places.map fun (symbol?, location) =>
        ⟨.known (symbol?.getD .increment), location⟩) := by
    induction places generalizing locations with
    | nil => rfl
    | cons place places ih =>
      obtain ⟨_ | symbol, location⟩ := place
      · simp [ih, survey]
      · simp only [List.filterMap_cons, Option.map_some, List.map_cons, Option.getD_some]
        cases symbol with
        | loopEnd =>
          cases locations with
          | nil => rfl
          | cons _ outer => exact ih outer
        | _ => exact ih _
  have places := skip (units.zipIdx.map fun (unit, index) =>
    (k.symbol? unit, k.place (units.take index))) []
  rw [List.filterMap_map, List.map_map] at places
  exact places

theorem above_of_not_defect {n : Nat} (clean : ∀ k < n, ¬ Defect tokens k) :
    ∀ k ≤ n, 0 ≤ depth ((Token.brackets tokens).take k) := by
  intro k le
  induction k with
  | zero => simp
  | succ k ih =>
    have before := ih (by omega)
    have here := mt Or.inl (clean k (by omega))
    rw [ClosesEarly, not_and, Int.not_lt] at here
    rcases is : (Token.brackets tokens)[k]? with _ | _ | _ | _
    · simpa [depth_take_add_one, is] using before
    · simpa [depth_take_add_one, is] using before
    · simp [depth_take_add_one, is]
      omega
    · exact here is

theorem exists_blamed {α : Type} [DecidableEq α] {k : Coding α} {units : List α} {e : Error}
    (refused : survey [] (k.tokens units) = .error e) :
    ∃ before unit after symbol, units = before ++ unit :: after ∧ k.symbol? unit = some symbol ∧
      Blamed (k.nesting units) before.length ∧
      e.bracket? = some (k.place before, String.singleton symbol.char) := by
  have nothing : Pending [] [] := .balanced balanced_nil
  have verdict : Verdict (k.filled units) (.error e) := by
    rw [← refused, survey_filled]
    exact verdict_survey nothing (by simp)
  have cut {i : Nat} {unit : α} (found : units[i]? = some unit) :
      units = units.take i ++ unit :: units.drop (i + 1) ∧ (units.take i).length = i := by
    obtain ⟨inside, rfl⟩ := List.getElem?_eq_some_iff.1 found
    exact ⟨by simp, by simp; omega⟩
  rw [← k.brackets_filled]
  cases verdict with
  | @closesEarly i location first here =>
    obtain ⟨unit, found, is, rfl⟩ := k.exists_unit here (by simp [Symbol.bracket?])
    obtain ⟨split, length⟩ := cut found
    refine ⟨_, unit, _, .loopEnd, split, is, ?_, rfl⟩
    rw [length]
    rcases first.1 with ⟨closes, below⟩ | ⟨name, place, foreign⟩
    · exact .closing closes below (above_of_not_defect first.2)
    · simp [here] at foreign
  | @foreign i name location first here =>
    rw [k.getElem?_filled] at here
    cases found : units[i]? <;> simp [found] at here
  | @unclosed i remaining location clean innermost here excess positive =>
    obtain ⟨unit, found, is, rfl⟩ := k.exists_unit here (by simp [Symbol.bracket?])
    obtain ⟨split, length⟩ := cut found
    refine ⟨_, unit, _, .loopStart, split, is, ?_, rfl⟩
    rw [length]
    exact .opening innermost.1 (fun n => above_of_not_defect (fun m _ => clean m) n (Nat.le_refl n))
      innermost.2.1 innermost.2.2

end Assembly

theorem ofUInt8_injective : Function.Injective Char.ofUInt8 := by
  intro a b same
  have values : a.toUInt32 = b.toUInt32 := congrArg Char.val same
  simpa using congrArg UInt32.toUInt8 values

theorem map_splitOn {α β : Type} [DecidableEq α] [DecidableEq β] {f : α → β}
    (injective : Function.Injective f) (a : α) (l : List α) :
    (l.map f).splitOn (f a) = (l.splitOn a).map (List.map f) := by
  induction l with
  | nil => rfl
  | cons b l ih =>
    rw [List.map_cons, List.splitOn_cons_eq_if_modifyHead, List.splitOn_cons_eq_if_modifyHead, ih]
    by_cases same : b = a
    · simp [same]
    · cases pieces : l.splitOn a with
      | nil => exact (List.splitOn_ne_nil a l pieces).elim
      | cons piece pieces => simp [same, injective.eq_iff]

/-- The lines of a source of bytes, one character for each byte. -/
theorem Source.lines_bytes (bytes : List UInt8) :
    (Source.bytes bytes).lines =
      (bytes.splitOn 0x0a).map fun piece => trimReturns (piece.map Char.ofUInt8) := by
  have split : (bytes.map Char.ofUInt8).splitOn '\n' = _ := map_splitOn ofUInt8_injective 0x0a bytes
  rw [lines, toCharacters, split, List.map_map]
  rfl

theorem trimReturns_append {c : Char} (before after : List Char) (other : c ≠ '\r') :
    trimReturns (before ++ c :: after) = before ++ c :: trimReturns after := by
  have stop : ¬ ((c == '\r') = true) := by simpa using other
  simp only [trimReturns, List.reverse_append, List.reverse_cons, List.append_assoc,
    List.dropWhile_append]
  split
  · rename_i empty
    rw [List.isEmpty_iff.1 empty]
    simp [other]
  · simp

namespace Excerpt

theorem exists_text {row : Row} {line column : Int} {width : Nat} {source : Source}
    (member : row ∈ rows line column width source) (file : String) {token : String}
    (fits : token.length = width) :
    ∃ above below, text file line column token source =
      above ++ "\n" ++ row.text ++ "\n" ++ below := by
  subst fits
  obtain ⟨earlier, later, split⟩ := List.append_of_mem member
  rw [text, split, List.map_append, ← List.cons_append, List.map_cons,
    String.intercalate_append_of_ne_nil (by simp) (by simp)]
  refine ⟨"\n" ++ "\n".intercalate (header file line :: earlier.map Row.text), ?_⟩
  cases later with
  | nil => exact ⟨"", by simp [String.append_assoc]⟩
  | cons next later =>
    rw [List.map_cons, String.intercalate_cons_cons]
    exact ⟨"\n".intercalate (next.text :: later.map Row.text) ++ "\n",
      by simp only [String.append_assoc]⟩

end Excerpt

/-- The excerpt of a source picks out the symbol at an offset and nothing else. In front of it stand
the bytes since the last line feed, one character for each, and behind it the rest of its line. -/
structure Excerpt.PicksOut (bytes : List UInt8) (offset line column : Nat) (symbol : Symbol)
    (front rest : List Char) : Prop where
  here : bytes[offset]? = some symbol.byte
  front_eq : front = ((bytes.take offset).rtakeWhile (· != 0x0a)).map Char.ofUInt8
  line_eq : line = (bytes.take offset).count 0x0a + 1
  column_eq : column = front.length + 1
  whole : ∃ piece, (bytes.splitOn 0x0a)[line - 1]? = some piece ∧
    front ++ symbol.char :: rest = trimReturns (piece.map Char.ofUInt8)
  row : ⟨line, front ++ symbol.char :: rest, true, some ⟨front, [symbol.char], rest⟩⟩ ∈
    rows line column 1 (.bytes bytes)
  text : ∀ file, ∃ above below, text file line column (String.singleton symbol.char) (.bytes bytes) =
    above ++ "\n" ++
      (Text.Style.bright.paint (Text.padLeft 5 (Decimal.natural line) ++ " |") ++ " " ++
        (String.ofList front ++ Text.Style.highlight.paint (String.singleton symbol.char) ++
          String.ofList rest)) ++
      "\n" ++ below

/-- The place that the scan gives to a symbol is where the excerpt picks it out. -/
theorem Excerpt.exists_picksOut {bytes before after : List UInt8} {symbol : Symbol}
    (split : bytes = before ++ symbol.byte :: after) :
    ∃ (line column : Nat) (front rest : List Char),
      Coding.ofBytes.place before = ⟨line, column⟩ ∧
      PicksOut bytes before.length line column symbol front rest := by
  let front := (Coding.ofBytes.openLine before).map Char.ofUInt8
  let rest := trimReturns ((after.takeWhile (· != 0x0a)).map Char.ofUInt8)
  have shown : Char.ofUInt8 symbol.byte = symbol.char ∧ symbol.char ≠ '\r' := by
    cases symbol <;> decide
  have taken : bytes.take before.length = before := by simp [split]
  have piece := Coding.getElem?_line split
  have whole : front ++ symbol.char :: rest = trimReturns ((Coding.ofBytes.openLine before ++
      symbol.byte :: after.takeWhile (· != 0x0a)).map Char.ofUInt8) := by
    rw [List.map_append, List.map_cons, shown.1]
    exact (trimReturns_append _ _ shown.2).symm
  have found : (Source.bytes bytes).lines[before.count 0x0a]? =
      some (front ++ symbol.char :: rest) := by
    rw [Source.lines_bytes, List.getElem?_map, piece, whole]
    rfl
  have row := mem_rows found (front.length + 1) 1
  rw [highlight?_append] at row
  refine ⟨before.count 0x0a + 1, front.length + 1, front, rest, ?_, ?_⟩
  · rw [Coding.place_ofBytes, ← List.length_map Char.ofUInt8]
    rfl
  · exact {
      here := by simp [split]
      front_eq := by rw [taken]; rfl
      line_eq := by rw [taken]
      column_eq := rfl
      whole := ⟨_, piece, whole⟩
      row := row
      text := fun file => exists_text row file String.length_singleton }

theorem Failure.diagnostic?_of_bracket {e : Assembly.Error} {location : Location} {token : String}
    (bracket : e.bracket? = some (location, token)) (file : Option String) : ∃ message,
      (assembling e file).diagnostic? = some (.parse message file (mark location token)) ∨
      ∃ unclosed : Int, (assembling e file).diagnostic? =
        some (.incomplete message file (mark location token) (some unclosed)) := by
  refine ⟨e.message, ?_⟩
  cases e with
  | unexpectedClosing place =>
    cases bracket
    exact .inl rfl
  | unclosed place remaining =>
    cases bracket
    exact .inr ⟨remaining, rfl⟩
  | unknownSymbol | missingInstruction => cases bracket

/-- A source that is refused is refused for a bracket, whatever units it is written in. -/
theorem Engine.exists_blamed_unit {α : Type} [DecidableEq α] {k : Coding α} {source : Source}
    {units : List α} (encoded : source.toBytes = units.flatMap k.encode) {file : Option String}
    {failure : Failure} (refused : Engine.compile source file = .error failure) :
    ∃ e before unit after symbol, failure = .assembling e file ∧
      units = before ++ unit :: after ∧ k.symbol? unit = some symbol ∧
      Blamed (k.nesting units) before.length ∧
      e.bracket? = some (k.place before, String.singleton symbol.char) := by
  obtain ⟨e, rejected, rfl⟩ : ∃ e, Program.ofSource source = .error e ∧
      failure = .assembling e file := by
    rw [Engine.compile] at refused
    cases outcome : Program.ofSource source with
    | ok program => simp [outcome, Except.mapError] at refused
    | error e => exact ⟨e, rfl, by simpa [outcome, Except.mapError] using refused.symm⟩
  have surveyed : Assembly.survey [] (k.tokens units) = .error e := by
    rw [← k.tokens_eq encoded, ← Assembly.ofTokens_eq_survey]
    exact congrArg (Except.map fun _ => ()) rejected
  obtain ⟨before, unit, after, symbol, split, is, blamed, bracket⟩ :=
    Assembly.exists_blamed surveyed
  exact ⟨e, before, unit, after, symbol, rfl, split, is, blamed, bracket⟩

theorem Engine.exists_blamed {bytes : List UInt8} {file : Option String} {failure : Failure}
    (refused : Engine.compile (.bytes bytes) file = .error failure) :
    ∃ e before byte after symbol, failure = .assembling e file ∧
      bytes = before ++ byte :: after ∧ Symbol.ofByte? byte = some symbol ∧
      Blamed (Coding.ofBytes.nesting bytes) before.length ∧
      e.bracket? = some (Coding.ofBytes.place before, String.singleton symbol.char) :=
  exists_blamed_unit (k := Coding.ofBytes) (by simp [Source.toBytes, Coding.ofBytes]) refused

theorem Engine.diagnostic?_of_compile {source : Source} {file : Option String} {failure : Failure}
    (refused : Engine.compile source file = .error failure) : ∃ message mark,
      failure.diagnostic? = some (.parse message file mark) ∨ ∃ unclosed : Int,
        failure.diagnostic? = some (.incomplete message file mark (some unclosed)) := by
  have encoded : source.toBytes = source.toBytes.flatMap Coding.ofBytes.encode := by
    simp [Coding.ofBytes]
  obtain ⟨e, _, _, _, _, rfl, -, -, -, bracket⟩ := exists_blamed_unit encoded refused
  obtain ⟨message, diagnostic⟩ := Failure.diagnostic?_of_bracket bracket file
  exact ⟨message, _, diagnostic⟩

/-- Whatever source of bytes is refused for its brackets, the error names the bracket to be blamed
and its place, and an excerpt for that place picks out just this bracket. -/
theorem blamed_bracket_is_picked_out {bytes : List UInt8} {file : Option String} {failure : Failure}
    (refused : Engine.compile (.bytes bytes) file = .error failure) :
    ∃ (offset line column : Nat) (symbol : Symbol) (front rest : List Char) (message : String),
      let mark : Mark := ⟨some line, some column, some (String.singleton symbol.char)⟩
      (failure.diagnostic? = some (.parse message file mark) ∨
        ∃ unclosed : Int,
          failure.diagnostic? = some (.incomplete message file mark (some unclosed))) ∧
      Blamed (Coding.ofBytes.nesting bytes) offset ∧
      Excerpt.PicksOut bytes offset line column symbol front rest := by
  obtain ⟨e, before, byte, after, symbol, rfl, split, is, blamed, bracket⟩ :=
    Engine.exists_blamed refused
  obtain rfl := Symbol.ofByte?_eq_some_iff.1 is
  obtain ⟨line, column, front, rest, place, picked⟩ := Excerpt.exists_picksOut split
  obtain ⟨message, diagnostic⟩ := Failure.diagnostic?_of_bracket (place ▸ bracket) file
  exact ⟨before.length, line, column, symbol, front, rest, message, diagnostic, blamed, picked⟩

/-- The second bracket closes too early, behind other bytes of its line and before carriage returns.
-/
theorem blamed_bracket_is_picked_out_returns :
    let bytes : List UInt8 := [0x5b, 0x0a, 0xe9, 0x0d, 0x5d, 0x1b, 0x5d, 0x00, 0x0d, 0x0d, 0x0a, 0x5b]
    let failure : Failure := .assembling (.unexpectedClosing ⟨2, 5⟩) (some "loop.bf")
    Engine.compile (.bytes bytes) (some "loop.bf") = .error failure ∧
      ∃ offset front rest, Blamed (Coding.ofBytes.nesting bytes) offset ∧
        Excerpt.PicksOut bytes offset 2 5 .loopEnd front rest := by
  intro bytes failure
  have first : Assembly.FirstDefect (Source.bytes bytes).tokens.toList 2 := by decide
  have rejected : Program.ofSource (.bytes bytes) = .error (.unexpectedClosing ⟨2, 5⟩) :=
    Assembly.ofTokens_of_closing first (by decide)
  have refused : Engine.compile (.bytes bytes) (some "loop.bf") = .error failure := by
    rw [Engine.compile, rejected]
    rfl
  obtain ⟨offset, line, column, symbol, front, rest, message, diagnostic, blamed, picked⟩ :=
    blamed_bracket_is_picked_out refused
  refine ⟨refused, offset, front, rest, blamed, ?_⟩
  rcases diagnostic with named | ⟨unclosed, named⟩
  · obtain ⟨-, -, place⟩ := Diagnostic.parse.inj (Option.some.inj named)
    obtain ⟨sameLine, sameColumn, sameToken⟩ := Mark.mk.inj place
    obtain rfl : 2 = line := Int.ofNat_inj.1 (Option.some.inj sameLine)
    obtain rfl : 5 = column := Int.ofNat_inj.1 (Option.some.inj sameColumn)
    obtain rfl : symbol = .loopEnd := by
      revert sameToken
      cases symbol <;> decide
    exact picked
  · cases named

end TapeVM
