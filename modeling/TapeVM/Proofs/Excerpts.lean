import Mathlib.Data.Int.Range
import Mathlib.Data.List.DropRight
import Mathlib.Data.List.Sort
import TapeVM.Excerpt
import TapeVM.Proofs.Placement

/-! Excerpts: what they show around a place, whatever the place is. The rows are those of the lines
that exist among the five whose numbers are near, and a row shows its line as it is, or with two
markers put into it. -/
namespace TapeVM

structure Cut (characters : List Char) (pieces : List (List Char)) : Prop where
  joined : ['\n'].intercalate pieces = characters
  clean : ∀ piece ∈ pieces, '\n' ∉ piece
  length : pieces.length = characters.count '\n' + 1

/-- A line without the carriage returns at its end, all of them. -/
structure Trimmed (piece line : List Char) : Prop where
  returns : ∃ k, piece = line ++ List.replicate k '\r'
  last : line.getLast? ≠ some '\r'

theorem not_mem_of_mem_splitOn {α : Type} [DecidableEq α] {a : α} {l piece : List α}
    (member : piece ∈ l.splitOn a) : a ∉ piece := by
  induction l generalizing piece with
  | nil =>
    obtain rfl : piece = [] := by simpa using member
    exact List.not_mem_nil
  | cons b l ih =>
    obtain ⟨first, others, pieces⟩ := List.exists_cons_of_ne_nil (List.splitOn_ne_nil a l)
    rw [List.splitOn_cons_eq_if_modifyHead, pieces] at member
    rw [pieces] at ih
    -- A separator opens an empty piece in front; anything else joins the first piece.
    by_cases same : b = a
    · simp only [same, BEq.rfl, if_true, List.mem_cons] at member
      rcases member with rfl | member
      · exact List.not_mem_nil
      · exact ih (List.mem_cons.2 member)
    · simp only [beq_iff_eq, same, if_false, List.modifyHead_cons, List.mem_cons] at member
      rcases member with rfl | member
      · exact List.not_mem_cons_of_ne_of_not_mem (Ne.symm same) (ih List.mem_cons_self)
      · exact ih (List.mem_cons_of_mem _ member)

theorem cut_splitOn (characters : List Char) : Cut characters (characters.splitOn '\n') where
  joined := List.intercalate_splitOn '\n'
  clean _ member := not_mem_of_mem_splitOn member
  length := length_splitOn _ characters

theorem trimmed_trimReturns (piece : List Char) : Trimmed piece (trimReturns piece) where
  returns := by
    refine ⟨(piece.rtakeWhile (· == '\r')).length, ?_⟩
    have returns : piece.rtakeWhile (· == '\r') = List.replicate _ '\r' :=
      List.eq_replicate_iff.2 ⟨rfl, fun c member => by simpa using List.mem_rtakeWhile_imp member⟩
    rw [← returns]
    exact List.rdropWhile_append_rtakeWhile.symm
  last := by
    intro last
    obtain ⟨front, split⟩ := List.getLast?_eq_some_iff.1 last
    -- Trimming is dropping from the right, which never stops at what it drops.
    have kept : piece.rdropWhile (· == '\r') = front ++ ['\r'] := split
    have stop := List.rdropWhile_last_not (· == '\r') piece (by simp [kept])
    simp [kept] at stop

theorem Source.exists_cut (source : Source) :
    ∃ pieces, Cut source.toCharacters pieces ∧ List.Forall₂ Trimmed pieces source.lines := by
  refine ⟨_, cut_splitOn _, ?_⟩
  rw [lines, List.forall₂_map_right_iff]
  exact List.forall₂_same.2 fun piece _ => trimmed_trimReturns piece

namespace Excerpt

variable {line column : Int} {width : Nat} {source : Source} {row : Row}

def rowOf (line column : Int) (width number : Nat) (text : List Char) : Row :=
  ⟨number, text, decide ((number : Int) = line),
    if (number : Int) = line then highlight? column width text else none⟩

theorem mem_rows_iff :
    row ∈ rows line column width source ↔ ∃ (number : Nat) (text : List Char),
      1 ≤ number ∧ source.lines[number - 1]? = some text ∧
      (line - radius ≤ number ∧ number ≤ line + radius) ∧
      row = rowOf line column width number text := by
  simp only [rows, List.mem_filterMap, Prod.exists, List.mk_mem_zipIdx_iff_le_and_getElem?_sub]
  constructor
  · rintro ⟨text, number, ⟨positive, found⟩, shown⟩
    obtain ⟨near, same⟩ := Option.ite_none_right_eq_some.1 shown
    exact ⟨number, text, positive, found, near, by simpa [rowOf] using same.symm⟩
  · rintro ⟨number, text, positive, found, near, rfl⟩
    exact ⟨text, number, ⟨positive, found⟩, by simp [rowOf, near]⟩

theorem pairwise_rows (line column : Int) (width : Nat) (source : Source) :
    (rows line column width source).Pairwise fun first second => first.number < second.number := by
  have counted : (source.lines.zipIdx 1).Pairwise fun first second => first.2 < second.2 := by
    rw [← List.pairwise_map, List.zipIdx_map_snd]
    exact List.pairwise_lt_range'
  refine List.pairwise_filterMap.2 (counted.imp fun less row shown row' shown' => ?_)
  obtain ⟨-, same⟩ := Option.ite_none_right_eq_some.1 shown
  obtain ⟨-, same'⟩ := Option.ite_none_right_eq_some.1 shown'
  cases same
  cases same'
  exact less

theorem pairwise_range (first last : Int) : (Int.range first last).Pairwise (· < ·) :=
  List.pairwise_map.2 (List.pairwise_lt_range.imp fun less => by omega)

/-- The rows have the numbers of the lines that are near, in order. -/
theorem numbers_rows (line column : Int) (width : Nat) (source : Source) :
    (rows line column width source).map (fun row => (row.number : Int)) =
      Int.range (max 1 (line - 2)) (min (source.lines.length : Int) (line + 2) + 1) := by
  -- Both lists are strictly increasing, so it is enough that they have the same members.
  have sorted := List.pairwise_map.2
    ((pairwise_rows line column width source).imp fun less => Int.ofNat_lt.2 less)
  refine List.Pairwise.eq_of_mem_iff sorted (pairwise_range _ _) fun n => ?_
  simp only [List.mem_map, mem_rows_iff, Int.mem_range_iff]
  constructor
  · rintro ⟨_, ⟨number, text, positive, found, near, rfl⟩, rfl⟩
    obtain ⟨inside, -⟩ := List.getElem?_eq_some_iff.1 found
    simp only [rowOf, radius] at near ⊢
    omega
  · rintro ⟨above, below⟩
    obtain ⟨number, rfl⟩ := Int.eq_ofNat_of_zero_le (by omega : 0 ≤ n)
    have found := List.getElem?_eq_getElem (by omega : number - 1 < source.lines.length)
    exact ⟨_, ⟨number, _, by omega, found, by rw [radius]; omega, rfl⟩, rfl⟩

theorem mem_rows {index : Nat} {text : List Char} (found : source.lines[index]? = some text)
    (column : Int) (width : Nat) :
    ⟨index + 1, text, true, highlight? column width text⟩ ∈ rows (index + 1) column width source :=
  mem_rows_iff.2 ⟨index + 1, text, Nat.le_add_left 1 index, found, by rw [radius]; omega,
    by simp [rowOf]⟩

theorem eq_of_number {other : Row} (first : row ∈ rows line column width source)
    (second : other ∈ rows line column width source) (same : row.number = other.number) :
    row = other := by
  obtain ⟨number, text, -, found, -, rfl⟩ := mem_rows_iff.1 first
  obtain ⟨number', text', -, found', -, rfl⟩ := mem_rows_iff.1 second
  obtain rfl : number = number' := same
  obtain rfl : text = text' := Option.some.inj (found.symm.trans found')
  rfl

theorem number_of_highlight (member : row ∈ rows line column width source)
    (picked : row.highlight ≠ none) : (row.number : Int) = line := by
  obtain ⟨number, text, -, -, -, rfl⟩ := mem_rows_iff.1 member
  by_contra other
  exact picked (if_neg other)

def gutter (line : Int) (number : Nat) : String :=
  (if (number : Int) = line then Text.Style.bright else Text.Style.faint).paint
    (Text.padLeft 5 (Decimal.natural number) ++ " |") ++ " "

/-- What a row shows: its number, and its line as it is or, if the place is on it, with two markers
around what starts there. -/
structure Shows (line column : Int) (width : Nat) (row : Row) : Prop where
  plain : ¬ (row.number = line ∧ 1 ≤ column ∧ column ≤ row.line.length) →
    row.text = gutter line row.number ++ String.ofList row.line
  marked : row.number = line → 1 ≤ column → column ≤ row.line.length →
    ∃ before part after, row.line = before ++ part ++ after ∧
      (before.length : Int) + 1 = column ∧
      part.length = min width (row.line.length - before.length) ∧
      row.text = gutter line row.number ++ (String.ofList before ++
        Text.Style.highlight.opening ++ String.ofList part ++ Text.Style.reset ++
        String.ofList after)

theorem highlight?_append (before after : List Char) (c : Char) (width : Nat) :
    highlight? (before.length + 1) width (before ++ c :: after) =
      some ⟨before, (c :: after).take width, (c :: after).drop width⟩ := by
  have inside : 0 < (before.length : Int) + 1 ∧
      (before.length : Int) + 1 ≤ (before ++ c :: after).length := by
    rw [List.length_append, List.length_cons]
    omega
  rw [highlight?, if_pos inside]
  simp

theorem of_highlight? {start : Nat} {text : List Char} {highlight : Highlight}
    (found : highlight? (start + 1) width text = some highlight) :
    highlight.before.length = start ∧
      highlight.before ++ highlight.marked ++ highlight.after = text := by
  obtain ⟨⟨-, inside⟩, same⟩ := Option.ite_none_right_eq_some.1 found
  cases same
  constructor
  · simp
    omega
  · rw [List.append_assoc, ← List.drop_drop, List.take_append_drop, List.take_append_drop]

theorem text_rowOf (line column : Int) (width number : Nat) (text : List Char) :
    (rowOf line column width number text).text = gutter line number ++
      (if (number : Int) = line then highlight? column width text else none).elim
        (String.ofList text) Highlight.text := by
  simp only [Row.text, rowOf, gutter, decide_eq_true_eq]
  cases (if (number : Int) = line then highlight? column width text else none) <;> rfl

theorem shows_rowOf (line column : Int) (width number : Nat) (text : List Char) :
    Shows line column width (rowOf line column width number text) where
  plain off := by
    rw [text_rowOf]
    split
    · next here =>
      have outside : ¬ (0 < column ∧ column ≤ text.length) := fun inside => off ⟨here, inside⟩
      rw [highlight?, if_neg outside]
      rfl
    · rfl
  marked here first inside := by
    obtain ⟨start, rfl⟩ := Int.exists_add_of_le first
    have within : 1 + (start : Int) ≤ text.length := inside
    have short : start < text.length := by omega
    obtain ⟨before, c, after, rfl, rfl⟩ : ∃ before c after,
        text = before ++ c :: after ∧ start = before.length :=
      ⟨text.take start, text[start], text.drop (start + 1), by simp, by simp; omega⟩
    refine ⟨before, (c :: after).take width, (c :: after).drop width, ?_, Int.add_comm _ _, ?_, ?_⟩
    · rw [List.append_assoc, List.take_append_drop]
      rfl
    · simp [rowOf]
    · have current : (number : Int) = line := here
      rw [text_rowOf, if_pos current, Int.add_comm, highlight?_append]
      simp only [Option.elim_some, Highlight.text, Text.Style.paint, String.append_assoc]
      rfl

theorem text_eq (file : String) (line column : Int) (token : String) (source : Source) :
    text file line column token source = "\n" ++ String.join ((header file line ::
      (rows line column token.length source).map Row.text).map (· ++ "\n")) := by
  have lines (first : String) (others : List String) :
      "\n".intercalate (first :: others) ++ "\n" =
        String.join ((first :: others).map (· ++ "\n")) := by
    induction others generalizing first with
    | nil => simp
    | cons second others ih =>
      simp only [String.intercalate_cons_cons, String.append_assoc, ih, List.map_cons,
        String.join_cons]
  rw [text, String.append_assoc, lines]

end Excerpt

/-- An excerpt is a header and the rows of the lines that exist among the five whose numbers are
near, each once and in order, for every place. The lines are those between line feeds without the
carriage returns at their ends. Each row shows its line unchanged, except that in the row of the
place, if the place is on the line, two markers stand around what starts there, up to the length of
the token. An excerpt is always made, unless the host has a limit on digits and the number of the
line, or that of a row, exceeds it. -/
theorem excerpt_window (host : Host) (file : String) (line column : Int) (token : String)
    (source : Source) :
    let rows := Excerpt.rows line column token.length source
    let written := host.Writes line ∧ ∀ row ∈ rows, host.Writes row.number
    (written → Excerpt.write host file line column token source = .ok ("\n" ++ String.join
      ((Text.Style.bright.paint ("  File \"" ++ file ++ "\", line " ++ Decimal.integer line) ::
        rows.map Excerpt.Row.text).map (· ++ "\n")))) ∧
    (¬ written → ∃ limit, host.digits = some limit ∧
      Excerpt.write host file line column token source = .error limit) ∧
    rows.map (fun row => (row.number : Int)) =
      Int.range (max 1 (line - 2)) (min (source.lines.length : Int) (line + 2) + 1) ∧
    (∃ pieces, Cut source.toCharacters pieces ∧ List.Forall₂ Trimmed pieces source.lines) ∧
    ∀ row ∈ rows, source.lines[row.number - 1]? = some row.line ∧
      Excerpt.Shows line column token.length row := by
  intro rows written
  have numbers : (∀ n ∈ Excerpt.numbers line column token source, host.Writes n) ↔ written := by
    simp [Excerpt.numbers, written, rows]
  rw [← Excerpt.header, ← numbers, ← Excerpt.text_eq]
  refine ⟨Host.write_of_writes, fun refused => Host.exists_write_eq_error refused _,
    Excerpt.numbers_rows _ _ _ source, source.exists_cut, fun row member => ?_⟩
  obtain ⟨number, text, -, found, -, rfl⟩ := Excerpt.mem_rows_iff.1 member
  exact ⟨found, Excerpt.shows_rowOf line column _ number text⟩

/-- Of a place behind the last line only the lines that exist are shown. -/
example : Excerpt.rows 3 9 2 (.text "+\r\n[") =
    [⟨1, ['+'], false, none⟩, ⟨2, ['['], false, none⟩] := by decide

end TapeVM
