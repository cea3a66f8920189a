import Mathlib.Data.Int.Range
import TapeVM.Proofs.Listings
import TapeVM.Tape.Window

/-! Windows of a tape read back. A window is a row of words, its cells and the dots at its ends, and
no two of these look alike, so the text tells which cells are shown, which one of them is marked,
and on which sides the tape goes on. -/
namespace TapeVM

namespace Tape

@[ext] structure Cell where
  value : UInt8
  marked : Bool
  deriving DecidableEq, Repr

/-- What a window shows: cells, and whether there are dots on their left and on their right. -/
@[ext] structure View where
  left : Bool
  cells : List Cell
  right : Bool
  deriving DecidableEq, Repr

def Cell.text (c : Cell) : String :=
  if c.marked then Text.Style.cursor.paint ("[" ++ Decimal.natural c.value.toNat ++ "]")
  else Decimal.natural c.value.toNat

def View.text (v : View) : String :=
  (if v.left then "… " else "") ++ " ".intercalate (v.cells.map Cell.text) ++
    (if v.right then " …" else "")

def dots (side : Bool) : List String := if side then ["…"] else []

/-- The cells of a window, or an empty word in their place. -/
def View.middle (v : View) : List String := if v.cells = [] then [""] else v.cells.map Cell.text

def View.words (v : View) : List String := dots v.left ++ v.middle ++ dots v.right

theorem Cell.text_marked (value : UInt8) : (Cell.text ⟨value, true⟩).toList =
    "\x1b[1;97m[".toList ++ (Decimal.natural value.toNat).toList ++ "]\x1b[0m".toList := by
  have opening : Text.Style.cursor.opening = "\x1b[1;97m" := by decide
  have reset : Text.Style.reset = "\x1b[0m" := by decide
  simp [text, Text.Style.paint, opening, reset]

theorem Cell.text_injective : Function.Injective Cell.text := by
  have escape (value : UInt8) : '\x1b' ∉ (Cell.text ⟨value, false⟩).toList :=
    fun member => Decimal.forall_mem_natural (P := (· ≠ '\x1b')) (by decide) _ _ member rfl
  have escaped (value : UInt8) : '\x1b' ∈ (Cell.text ⟨value, true⟩).toList := by
    simp [Cell.text_marked]
  rintro ⟨value, marked⟩ ⟨value', marked'⟩ same
  have values (same : Decimal.natural value.toNat = Decimal.natural value'.toNat) :
      value = value' := UInt8.toNat_inj.1 (Decimal.natural_injective same)
  cases marked <;> cases marked'
  · rw [values same]
  · exact absurd (same ▸ escaped value') (escape value)
  · exact absurd (same ▸ escaped value) (escape value')
  · have digits := congrArg String.toList same
    rw [Cell.text_marked, Cell.text_marked, List.append_cancel_right_eq,
      List.append_cancel_left_eq, String.toList_inj] at digits
    rw [values digits]

theorem Cell.text_word (c : Cell) : ' ' ∉ c.text.toList ∧ c.text ≠ "…" ∧ c.text ≠ "" := by
  have other : ∀ character ∈ c.text.toList, character ≠ ' ' ∧ character ≠ '…' := by
    have digits : ∀ character ∈ (Decimal.natural c.value.toNat).toList,
        character ≠ ' ' ∧ character ≠ '…' := Decimal.forall_mem_natural (by decide) _
    obtain ⟨value, _ | _⟩ := c
    · exact digits
    · rw [Cell.text_marked]
      simpa [or_imp, forall_and] using digits
  have filled : c.text ≠ "" := by
    obtain ⟨value, _ | _⟩ := c
    · exact fun none => Decimal.digits_ne_nil value.toNat (String.ofList_eq_empty_iff.1 none)
    · rw [← String.toList_inj.ne, Cell.text_marked]
      simp
  refine ⟨fun blank => (other _ blank).1 rfl, fun dots => ?_, filled⟩
  exact (other '…' (by simp [dots])).2 rfl

theorem View.middle_ne_nil (v : View) : v.middle ≠ [] := by
  rw [middle]
  split
  · exact List.cons_ne_nil _ _
  · next filled => simpa using filled

theorem View.forall_mem_words {P : String → Prop} (dots : P "…") (empty : P "")
    (cells : ∀ c : Cell, P c.text) (v : View) : ∀ word ∈ v.words, P word := by
  have ends (side : Bool) : ∀ word ∈ Tape.dots side, P word := by
    cases side <;> simp [Tape.dots, dots]
  have inner : ∀ word ∈ v.middle, P word := by
    rw [middle]
    split
    · simpa using empty
    · exact List.forall_mem_map.2 fun c _ => cells c
  exact List.forall_mem_append.2 ⟨List.forall_mem_append.2 ⟨ends v.left, inner⟩, ends v.right⟩

theorem View.text_eq (v : View) : v.text = " ".intercalate v.words := by
  have inner : " ".intercalate (v.cells.map Cell.text) = " ".intercalate v.middle := by
    rw [middle]
    split
    · next empty => simp [empty]
    · rfl
  have filled := v.middle_ne_nil
  have left : "… " = "…" ++ " " := by decide
  have right : " …" = " " ++ "…" := by decide
  rw [text, words, inner, left, right]
  cases v.left <;> cases v.right <;>
    simp [dots, String.intercalate_append_of_ne_nil, String.intercalate_cons_of_ne_nil, filled,
      String.append_assoc]

theorem View.splitOn_text (v : View) : v.text.toList.splitOn ' ' = v.words.map String.toList := by
  have clear : ∀ word ∈ v.words.map String.toList, ' ' ∉ word :=
    List.forall_mem_map.2
      (v.forall_mem_words (by simp) (by simp) fun c => c.text_word.1)
  have filled : v.words.map String.toList ≠ [] := by
    simp [words, v.middle_ne_nil]
  rw [text_eq, String.toList_intercalate]
  exact List.splitOn_intercalate ' ' clear filled

theorem View.head?_words (v : View) : v.words.head? = some "…" ↔ v.left := by
  have cell (c : Cell) : c.text ≠ "…" := c.text_word.2.1
  obtain ⟨_ | _, _ | ⟨c, cells⟩, right⟩ := v <;> simp [words, dots, middle, cell]

theorem View.getLast?_words (v : View) : v.words.getLast? = some "…" ↔ v.right := by
  have cell (c : Cell) : c.text ≠ "…" := c.text_word.2.1
  obtain ⟨left, cells, _ | _⟩ := v
  · rcases List.eq_nil_or_concat cells with rfl | ⟨cells, c, rfl⟩ <;>
      simp [words, dots, middle, cell]
  · simp [words, dots]

theorem View.filter_words (v : View) :
    v.words.filter (fun word => word ≠ "…" ∧ word ≠ "") = v.cells.map Cell.text := by
  have none (side : Bool) : (dots side).filter (fun word => word ≠ "…" ∧ word ≠ "") = [] := by
    cases side <;> simp [dots]
  have inner : v.middle.filter (fun word => word ≠ "…" ∧ word ≠ "") = v.cells.map Cell.text := by
    rw [middle]
    split
    · next empty => simp [empty]
    · exact List.filter_eq_self.2 (List.forall_mem_map.2 fun c _ => by simpa using c.text_word.2)
  rw [words, List.filter_append, List.filter_append, none, none, inner, List.nil_append,
    List.append_nil]

/-- A window shows one thing only. -/
theorem View.text_injective : Function.Injective View.text := by
  intro v w same
  have words : v.words = w.words := by
    have split := congrArg (fun text => text.toList.splitOn ' ') same
    simp only [splitOn_text] at split
    exact (List.map_inj_right fun _ _ => String.toList_injective).1 split
  have left : v.left = w.left := by
    rw [Bool.eq_iff_iff, ← head?_words, ← head?_words, words]
  have right : v.right = w.right := by
    rw [Bool.eq_iff_iff, ← getLast?_words, ← getLast?_words, words]
  have cells : v.cells.map Cell.text = w.cells.map Cell.text := by
    rw [← filter_words, ← filter_words, words]
  exact View.ext left ((List.map_inj_right fun _ _ same => Cell.text_injective same).1 cells) right

/-- Cells from an index on, one of which may be under the cursor. -/
def cellsFrom (index : Nat) (cursor : Nat) (values : List UInt8) : List Cell :=
  (values.zipIdx index).map fun (value, place) => ⟨value, place = cursor⟩

theorem window_eq (tape : Tape) (cursor radius : Nat) :
    tape.window cursor radius = View.text
      ⟨radius < cursor, cellsFrom (cursor - radius) cursor
        (tape.toList.extract (cursor - radius) (min tape.size (cursor + radius + 1))),
        cursor + radius + 1 < tape.size⟩ := by
  have start : (max 0 ((cursor : Int) - radius)).toNat = cursor - radius := by omega
  have finish : (min (tape.size : Int) (cursor + radius + 1)).toNat =
      min tape.size (cursor + radius + 1) := by omega
  have left : (0 < max 0 ((cursor : Int) - radius)) ↔ radius < cursor := by omega
  have right : (min (tape.size : Int) (cursor + radius + 1) < tape.size) ↔
      cursor + radius + 1 < tape.size := by omega
  have cell : (fun (entry : UInt8 × Nat) => cellText cursor entry.2 entry.1) =
      Cell.text ∘ fun entry => ⟨entry.1, entry.2 = cursor⟩ := by
    funext entry
    simp only [Function.comp_apply, cellText, Cell.text, Int.natCast_inj, decide_eq_true_eq]
  simp only [window, View.text, cellsFrom, start, finish, left, right, List.map_map,
    Array.toList_extract, decide_eq_true_eq]
  rw [← cell]

theorem cellsFrom_append (index cursor : Nat) (first second : List UInt8) :
    cellsFrom index cursor (first ++ second) =
      cellsFrom index cursor first ++ cellsFrom (index + first.length) cursor second := by
  simp [cellsFrom, List.zipIdx_append]

theorem cellsFrom_of_apart {index cursor : Nat} {values : List UInt8}
    (apart : cursor < index ∨ index + values.length ≤ cursor) :
    cellsFrom index cursor values = values.map (⟨·, false⟩) := by
  rw [cellsFrom, ← List.zipIdx_map_fst index values, List.map_map, List.zipIdx_map_fst]
  refine List.map_congr_left fun entry member => ?_
  have within := List.mem_zipIdx member
  have off : entry.2 ≠ cursor := by omega
  simp [off]

theorem exists_around {tape : Tape} {cursor : Nat} (inside : cursor < tape.size) (radius : Nat) :
    ∃ front before after behind : List UInt8,
      tape.toList = front ++ (before ++ tape[cursor] :: after ++ behind) ∧
      front.length = cursor - radius ∧ before.length = min radius cursor ∧
      after.length = min radius (tape.size - 1 - cursor) := by
  have on : cursor < tape.toList.length := by simpa using inside
  refine ⟨(tape.toList.take cursor).take (cursor - radius),
    (tape.toList.take cursor).drop (cursor - radius), (tape.toList.drop (cursor + 1)).take radius,
    (tape.toList.drop (cursor + 1)).drop radius, ?_, ?_, ?_, ?_⟩
  · calc tape.toList
        = tape.toList.take cursor ++ tape[cursor] :: tape.toList.drop (cursor + 1) := by
          rw [← Array.getElem_toList, ← List.drop_eq_getElem_cons on, List.take_append_drop]
      _ = _ := by
          rw [List.append_assoc, List.cons_append, List.take_append_drop, ← List.append_assoc,
            List.take_append_drop]
  · simp
    omega
  · simp
    omega
  · simp
    omega

/-- The window that asks for its cells one by one, from the first to the last. Without an answer to
one of these requests there is no window. -/
def windowOf? (cell? : Int → Option UInt8) (size : Nat) (cursor radius : Int) : Option String := do
  let start : Int := max 0 (cursor - radius)
  let finish : Int := min size (cursor + radius + 1)
  let cells ← (Int.range start finish).mapM fun index =>
    (cell? index).map (cellText cursor index.toNat)
  some ((if 0 < start then "… " else "") ++ " ".intercalate cells ++
    (if finish < size then " …" else ""))

/-- Nothing but cells of the tape is asked for. -/
theorem windowOf?_eq (tape : Tape) {cell? : Int → Option UInt8} (cursor radius : Int)
    (cells : ∀ (index : Nat) (h : index < tape.size), cell? index = some tape[index]) :
    windowOf? cell? tape.size cursor radius = some (tape.window cursor radius) := by
  obtain ⟨start, first⟩ : ∃ start, start = max 0 (cursor - radius) := ⟨_, rfl⟩
  obtain ⟨finish, last⟩ : ∃ finish, finish = min (tape.size : Int) (cursor + radius + 1) := ⟨_, rfl⟩
  have answered : ∀ index ∈ Int.range start finish,
      (cell? index).map (cellText cursor index.toNat) =
        pure (cellText cursor index.toNat (tape.toList[index.toNat]?.getD 0)) := by
    intro index member
    have within := Int.mem_range_iff.1 member
    obtain ⟨place, rfl⟩ := Int.eq_ofNat_of_zero_le (by omega : 0 ≤ index)
    have inside : place < tape.size := by omega
    simp [cells place inside, inside]
  have shown : (Int.range start finish).map
      (fun index => cellText cursor index.toNat (tape.toList[index.toNat]?.getD 0)) =
        ((tape.extract start.toNat finish.toNat).toList.zipIdx start.toNat).map
          fun (value, index) => cellText cursor index value := by
    refine List.ext_getElem ?_ fun k before behind => ?_
    · simp [Int.range]
      omega
    · simp only [Int.range, List.map_map, List.length_map, List.length_range] at before
      have place : (start + k).toNat = start.toNat + k := by omega
      have inside : start.toNat + k < tape.size := by omega
      simp [Int.range, place, inside]
  rw [windowOf?, ← first, ← last, Program.mapM_eq_pure answered, shown, window, ← first, ← last]
  rfl

/-- A window reads cells of the tape only. While the cursor is on the tape it marks the cell there
and shows, in the order of the tape, as many cells in front of it and behind it as there are, up to
the radius; dots stand where more are left out. Behind the end of the tape it marks nothing and
shows the cells that are within the radius. The text of a window shows nothing else. -/
theorem window_around_cursor :
    (∀ (tape : Tape) (cell? : Int → Option UInt8) (cursor radius : Nat),
      (∀ (index : Nat) (h : index < tape.size), cell? index = some tape[index]) →
        windowOf? cell? tape.size cursor radius = some (tape.window cursor radius)) ∧
    (∀ (tape : Tape) (cursor radius : Nat) (inside : cursor < tape.size),
      ∃ front before after behind : List UInt8,
        tape.toList = front ++ before ++ tape[cursor] :: after ++ behind ∧
        (front ++ before).length = cursor ∧ before.length = min radius cursor ∧
        after.length = min radius (tape.size - 1 - cursor) ∧
        tape.window cursor radius = View.text
          ⟨radius < cursor,
            before.map (⟨·, false⟩) ++ ⟨tape[cursor], true⟩ :: after.map (⟨·, false⟩),
            cursor + radius + 1 < tape.size⟩) ∧
    (∀ (tape : Tape) (cursor radius : Nat), tape.size ≤ cursor →
      tape.window cursor radius = View.text
        ⟨radius < cursor, (tape.toList.drop (cursor - radius)).map (⟨·, false⟩), false⟩) ∧
    Function.Injective View.text := by
  refine ⟨fun tape cell? cursor radius cells => windowOf?_eq tape cursor radius cells, ?_, ?_,
    View.text_injective⟩
  · intro tape cursor radius inside
    obtain ⟨front, before, after, behind, cut, skipped, near, near'⟩ := exists_around inside radius
    have shown : tape.toList.extract (cursor - radius) (min tape.size (cursor + radius + 1)) =
        before ++ tape[cursor] :: after := by
      have count : min tape.size (cursor + radius + 1) - (cursor - radius) =
          (before ++ tape[cursor] :: after).length := by
        simp
        omega
      rw [List.extract_eq_take_drop, count, cut, ← skipped, List.drop_left, List.take_left]
    have here : cursor - radius + before.length = cursor := by omega
    have marked : cellsFrom cursor cursor (tape[cursor] :: after) =
        ⟨tape[cursor], true⟩ :: after.map (⟨·, false⟩) := by
      rw [← cellsFrom_of_apart (.inl (Nat.lt_succ_self cursor))]
      simp [cellsFrom]
    refine ⟨front, before, after, behind, by simpa using cut, by simp; omega, near, near', ?_⟩
    rw [window_eq, shown, cellsFrom_append, cellsFrom_of_apart (.inr (Nat.le_of_eq here)), here,
      marked]
  · intro tape cursor radius outside
    have shown : tape.toList.extract (cursor - radius) (min tape.size (cursor + radius + 1)) =
        tape.toList.drop (cursor - radius) := by
      rw [List.extract_eq_take_drop, List.take_of_length_le]
      simp
      omega
    have right : ¬ cursor + radius + 1 < tape.size := by omega
    rw [window_eq, shown, cellsFrom_of_apart]
    · simp [right]
    · simp
      omega

/-- A window that is cut off at the first cell and goes on behind, and one whose cursor is so far
behind the tape that one cell is left. -/
theorem window_around_cursor_clipped :
    let tape : Tape := #[7, 8, 9, 10]
    let cell? : Int → Option UInt8 := fun index => if 0 ≤ index then tape[index.toNat]? else none
    (∀ (index : Nat) (h : index < tape.size), cell? index = some tape[index]) ∧
      windowOf? cell? tape.size 1 1 = some (tape.window 1 1) ∧
      tape.window 1 1 =
        View.text ⟨false, [⟨7, false⟩, ⟨8, true⟩, ⟨9, false⟩], true⟩ ∧
      tape.window 6 3 = View.text ⟨true, [⟨10, false⟩], false⟩ := by
  intro tape cell?
  obtain ⟨reads, on, off, -⟩ := window_around_cursor
  have cells : ∀ (index : Nat) (h : index < tape.size), cell? index = some tape[index] := by
    intro index h
    simp [cell?, h]
  obtain ⟨front, before, after, behind, cut, length, near, near', shown⟩ := on tape 1 1 (by decide)
  refine ⟨cells, reads tape cell? 1 1 cells, ?_, off tape 6 3 (by decide)⟩
  obtain ⟨first, rfl⟩ := List.length_eq_one_iff.1 near
  obtain ⟨last, rfl⟩ := List.length_eq_one_iff.1 near'
  obtain rfl : front = [] := by simpa using length
  obtain ⟨rfl, rfl, rfl⟩ : 7 = first ∧ 9 = last ∧ [10] = behind := by simpa [tape] using cut
  exact shown

end Tape
end TapeVM
