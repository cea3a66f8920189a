import Mathlib.Data.List.Basic
import TapeVM.Token

/-! Scanning: what the tokens of a source are. -/
namespace TapeVM

theorem Scan.terminals_feed (scan : Scan) (byte : UInt8) :
    (scan.feed byte).tokens.toList.map Token.terminal =
      scan.tokens.toList.map Token.terminal ++
        ([byte].filterMap Symbol.ofByte?).map Terminal.known := by
  by_cases newline : byte = 0x0a
  · subst newline
    simp [Symbol.ofByte?]
  · cases found : Symbol.ofByte? byte with
    | some symbol =>
      obtain rfl := Symbol.ofByte?_eq_some_iff.1 found
      simp [feed_symbol]
    | none => simp [feed_comment scan newline found, found]

theorem Scan.terminals_foldl (bytes : List UInt8) (scan : Scan) :
    (bytes.foldl feed scan).tokens.toList.map Token.terminal =
      scan.tokens.toList.map Token.terminal ++
        (bytes.filterMap Symbol.ofByte?).map Terminal.known := by
  induction bytes generalizing scan with
  | nil => simp
  | cons byte bytes ih =>
    rw [List.foldl_cons, ih, terminals_feed, List.append_assoc, ← List.map_append,
      ← List.filterMap_append]
    rfl

theorem Source.terminals_tokens (source : Source) :
    source.tokens.toList.map Token.terminal = source.symbols.map .known := by
  simpa [tokens, symbols] using Scan.terminals_foldl source.toBytes {}

theorem Source.symbols_text (l : List Symbol) :
    (Source.text (String.ofList (l.map Symbol.char))).symbols = l := by
  have encoded (s : Symbol) : String.utf8EncodeChar s.char = [s.byte] := by cases s <;> rfl
  simp [symbols, toBytes, List.flatMap_map, encoded, ← List.map_eq_flatMap, List.filterMap_map]

end TapeVM
