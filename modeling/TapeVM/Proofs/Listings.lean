import TapeVM.Program.Listing
import TapeVM.Proofs.Colours
import TapeVM.Proofs.Numerals

/-! Listings read back. Without its colours a listing is a table of plain rows, one for each
instruction, with the separators below each other, and a reader that goes by the separators gets the
program back. There is a listing for every program whose instructions have names, as long as the
host can write their operands. -/
namespace TapeVM

open Text

def Opcode.named : List Opcode :=
  [add, sub, shiftLeft, shiftRight, jumpIfZero, jumpIfNonZero, input, output]

def Opcode.ofName? (name : String) : Option Opcode :=
  named.find? fun op => op.name? = some name

variable {host : Host} {op : Opcode} {i : Instruction} {name : String} {program : Program}

theorem Opcode.ofName?_of_name? (is : op.name? = some name) : ofName? name = some op := by
  cases op <;> cases is <;> decide

theorem Opcode.name?_spelling (is : op.name? = some name) :
    (∀ c ∈ name.toList, ' '.toNat < c.toNat) ∧ name.toList.length < 14 := by
  have all : name.toList.all (fun c => ' '.toNat < c.toNat) ∧ name.toList.length < 14 := by
    cases op <;> cases is <;> decide
  simpa using all

/-- No character of a text comes before the blank, as escapes and newlines do. -/
def Printed (text : String) : Prop := ∀ c ∈ text.toList, ' '.toNat ≤ c.toNat

theorem Printed.not_mem {text : String} (printed : Printed text) {c : Char}
    (before : c.toNat < ' '.toNat) : c ∉ text.toList :=
  fun member => Nat.not_le.2 before (printed c member)

theorem Opcode.printed_name (is : op.name? = some name) : Printed name :=
  fun c member => Nat.le_of_lt ((name?_spelling is).1 c member)

theorem Printed.append {first second : String} (printed : Printed first)
    (printed' : Printed second) : Printed (first ++ second) := by
  intro c member
  rcases List.mem_append.1 (String.toList_append ▸ member) with front | behind
  · exact printed c front
  · exact printed' c behind

theorem printed_natural (n : Nat) : Printed (Decimal.natural n) :=
  Decimal.forall_mem_natural (by decide) n

theorem printed_integer (n : Int) : Printed (Decimal.integer n) :=
  Decimal.forall_mem_integer (by decide) (by decide) n

theorem Printed.padLeft {text : String} (printed : Printed text) (width : Nat) :
    Printed (padLeft width text) := by
  intro c member
  rw [Text.padLeft, String.toList_ofList, List.leftpad, List.mem_append] at member
  rcases member with blank | inside
  · exact List.eq_of_mem_replicate blank ▸ Nat.le_refl _
  · exact printed c inside

theorem Printed.padRight {text : String} (printed : Printed text) (width : Nat) :
    Printed (padRight width text) := by
  intro c member
  rw [Text.padRight, String.toList_ofList, List.rightpad, List.mem_append] at member
  rcases member with inside | blank
  · exact printed c inside
  · exact List.eq_of_mem_replicate blank ▸ Nat.le_refl _

namespace Program

def rowNumber (program : Program) (index : Nat) : String :=
  padLeft (Decimal.natural (program.size - 1)).length (Decimal.natural index)

def rowColumns (i : Instruction) (name : String) : String :=
  padRight 14 name ++ " " ++ Decimal.integer i.operand

def paintedRow (program : Program) (index : Nat) (i : Instruction) (name : String) : String :=
  Style.faint.paint (program.rowNumber index ++ " :") ++ "  " ++ rowColumns i name ++ "\n"

/-- A row of the listing without its colours. -/
def plainRow (program : Program) (index : Nat) (i : Instruction) (name : String) : String :=
  program.rowNumber index ++ " :  " ++ rowColumns i name

theorem listingRow_of_name? (is : i.op.name? = some name) (writes : host.Writes i.operand)
    (index : Nat) :
    listingRow host (Decimal.digits (program.size - 1)).length i index =
      .ok (program.paintedRow index i name) := by
  have written : ∀ n ∈ [i.operand], host.Writes n := by simpa using writes
  simp [listingRow, Instruction.columns?, is, Host.write_of_writes written, Except.mapError,
    paintedRow, rowNumber, rowColumns, Decimal.natural]

theorem listingRow_of_unnamed {code : Int} (unknown : i.op = .unassigned code)
    (width index : Nat) : listingRow host width i index = .error (.unnamed code) := by
  simp [listingRow, Instruction.columns?, unknown, Opcode.name?, Opcode.code]

theorem listingRow_of_overlong {limit : Nat} (is : i.op.name? = some name)
    (limited : host.digits = some limit) (overlong : ¬ host.Writes i.operand)
    (width index : Nat) : listingRow host width i index = .error (.overlong limit) := by
  rw [listingRow, Instruction.columns?, is, Option.map_some]
  dsimp only
  rw [Host.write_eq_error_iff.2 ⟨limited, by simpa using overlong⟩]
  rfl

theorem printed_rowNumber (program : Program) (index : Nat) : Printed (program.rowNumber index) :=
  (printed_natural index).padLeft _

theorem printed_rowColumns (is : i.op.name? = some name) : Printed (rowColumns i name) := by
  have word : Printed name := Opcode.printed_name is
  exact ((word.padRight 14).append (by simp [Printed])).append (printed_integer i.operand)

theorem printed_plainRow (is : i.op.name? = some name) (index : Nat) :
    Printed (program.plainRow index i name) :=
  ((program.printed_rowNumber index).append (by simp [Printed])).append (printed_rowColumns is)

theorem length_rowNumber {index : Nat} (lt : index < program.size) :
    (program.rowNumber index).length = (Decimal.natural (program.size - 1)).length := by
  have fits := Decimal.length_digits_le (Nat.le_sub_one_of_lt lt)
  simp only [rowNumber, padLeft, List.leftpad, Decimal.natural, String.length_ofList,
    String.toList_ofList, List.length_append, List.length_replicate]
  omega

/-- The instruction a plain row shows: behind the separator a name, blanks and an operand. -/
def readRow? (row : List Char) : Option Instruction := do
  let columns := (row.dropWhile (· != ':')).drop 3
  let op ← Opcode.ofName? (String.ofList (columns.takeWhile (· != ' ')))
  let operand ← Decimal.readNumeral? ((columns.dropWhile (· != ' ')).dropWhile (· == ' '))
  some ⟨op, operand⟩

theorem toList_plainRow (program : Program) (index : Nat) (i : Instruction) (name : String) :
    ∃ blanks, (program.plainRow index i name).toList =
      (program.rowNumber index ++ " ").toList ++ ':' :: ' ' :: ' ' ::
        (name.toList ++ ' ' :: (List.replicate blanks ' ' ++ (Decimal.integer i.operand).toList)) := by
  have gap (blanks : Nat) (rest : List Char) :
      List.replicate blanks ' ' ++ ' ' :: rest = ' ' :: (List.replicate blanks ' ' ++ rest) := by
    rw [← List.singleton_append, ← List.append_assoc, ← List.replicate_succ', List.replicate_succ,
      List.cons_append]
  exact ⟨14 - name.toList.length, by
    simp [plainRow, rowColumns, padRight, List.rightpad, gap]⟩

theorem rowNumber_ne_colon (program : Program) (index : Nat) :
    ∀ c ∈ (program.rowNumber index ++ " ").toList, (c != ':') = true := by
  intro c member
  have number : ∀ c ∈ (Decimal.natural index).toList, (c != ':') = true :=
    Decimal.forall_mem_natural (by decide) index
  simp only [rowNumber, padLeft, List.leftpad, String.toList_append, String.toList_ofList,
    List.mem_append, List.mem_replicate] at member
  rcases member with (⟨-, rfl⟩ | digit) | blank
  · rfl
  · exact number c digit
  · obtain rfl : c = ' ' := by simpa using blank
    rfl

theorem readRow?_plainRow (is : i.op.name? = some name) (index : Nat) :
    readRow? (program.plainRow index i name).toList = some i := by
  obtain ⟨blanks, row⟩ := program.toList_plainRow index i name
  have columns : ((program.plainRow index i name).toList.dropWhile (· != ':')).drop 3 =
      name.toList ++ ' ' :: (List.replicate blanks ' ' ++ (Decimal.integer i.operand).toList) := by
    rw [row, List.dropWhile_append_of_pos (program.rowNumber_ne_colon index)]
    rfl
  have word : ∀ c ∈ name.toList, (c != ' ') = true := by
    intro c member
    have above := (Opcode.name?_spelling is).1 c member
    exact bne_iff_ne.2 fun same => Nat.lt_irrefl _ (same ▸ above)
  have solid : ∀ c ∈ (Decimal.integer i.operand).toList, (c == ' ') = false :=
    Decimal.forall_mem_integer (by decide) (by decide) i.operand
  have operand : (Decimal.integer i.operand).toList.dropWhile (· == ' ') =
      (Decimal.integer i.operand).toList :=
    List.dropWhile_eq_self_iff.2 fun lt => by simpa using solid _ (List.getElem_mem lt)
  have blank : ∀ c ∈ List.replicate blanks ' ', (c == ' ') = true := by simp
  simp only [readRow?, columns, List.takeWhile_append_of_pos word, List.dropWhile_append_of_pos word]
  rw [List.takeWhile_cons_of_neg (by simp), List.append_nil, String.ofList_toList,
    Opcode.ofName?_of_name? is, List.dropWhile_cons_of_neg (by simp),
    List.dropWhile_cons_of_pos (by simp), List.dropWhile_append_of_pos blank, operand,
    Decimal.readNumeral?_integer]
  rfl

/-- The program that a listing without colours shows. -/
def readListing? (text : String) : Option Program :=
  ((text.toList.splitOn '\n').dropLast.mapM readRow?).map List.toArray

theorem splitOn_line {line : List Char} (clear : '\n' ∉ line) (rest : List Char) :
    (line ++ '\n' :: rest).splitOn '\n' = line :: rest.splitOn '\n' := by
  have alone : line.splitOn '\n' = [line] := by
    have clear_all : ∀ other ∈ [line], '\n' ∉ other := by simpa using clear
    simpa using List.splitOn_intercalate '\n' clear_all (by simp)
  have parts : List.splitOnP (· == '\n') (line ++ '\n' :: rest) =
      line.splitOn '\n' ++ rest.splitOn '\n' := List.splitOnP_append_cons line rest rfl
  rw [alone] at parts
  exact parts

theorem splitOn_join {rows : List String} (clear : ∀ row ∈ rows, '\n' ∉ row.toList) :
    (String.join (rows.map (· ++ "\n"))).toList.splitOn '\n' = rows.map String.toList ++ [[]] := by
  induction rows with
  | nil => simp
  | cons row rows ih =>
    have joined : (String.join ((row :: rows).map (· ++ "\n"))).toList =
        row.toList ++ '\n' :: (String.join (rows.map (· ++ "\n"))).toList := by simp
    rw [joined, splitOn_line (clear row (by simp)),
      ih fun other member => clear other (List.mem_cons_of_mem row member), List.map_cons,
      List.cons_append]

theorem mapM_eq_pure {m : Type → Type} [Monad m] [LawfulMonad m] {α β : Type} {f : α → m β}
    {g : α → β} {l : List α} (all : ∀ a ∈ l, f a = pure (g a)) : l.mapM f = pure (l.map g) := by
  induction l with
  | nil => rfl
  | cons a l ih =>
    rw [List.mapM_cons, all a (by simp), ih fun b member => all b (List.mem_cons_of_mem a member)]
    simp

def Listable (host : Host) (i : Instruction) : Prop :=
  i.op.name?.isSome ∧ host.Writes i.operand

theorem listingRow_of_not_listable (refused : ¬ Listable host i) :
    ∃ reason, ∀ width index, listingRow host width i index = .error reason := by
  cases is : i.op.name? with
  | none => exact ⟨_, listingRow_of_unnamed (Opcode.name?_eq_none_iff.1 is)⟩
  | some name =>
    have overlong : ¬ host.Writes i.operand := fun writes => refused ⟨by simp [is], writes⟩
    obtain ⟨limit, limited⟩ := Host.exists_limit_of_not_writes overlong
    exact ⟨_, listingRow_of_overlong is limited overlong⟩

def plainRows (program : Program) : List String :=
  program.toList.zipIdx.map fun (i, index) => program.plainRow index i (i.op.name?.getD "")

theorem name?_of_mem {l : List Instruction} (named : ∀ i ∈ l, i.op.name?.isSome)
    {entry : Instruction × Nat} (member : entry ∈ l.zipIdx) :
    entry.1.op.name? = some (entry.1.op.name?.getD "") := by
  obtain ⟨name, is⟩ := Option.isSome_iff_exists.1 (named _ (List.fst_mem_of_mem_zipIdx member))
  rw [is]
  rfl

theorem printed_plainRows (named : ∀ i ∈ program.toList, i.op.name?.isSome) :
    ∀ row ∈ program.plainRows, Printed row := by
  intro row member
  obtain ⟨entry, inside, rfl⟩ := List.mem_map.1 member
  exact printed_plainRow (name?_of_mem named inside) entry.2

theorem withoutEscapes_paintedRow (is : i.op.name? = some name) (index : Nat) :
    withoutEscapes .colour (program.paintedRow index i name) =
      program.plainRow index i name ++ "\n" := by
  have number : '\x1b' ∉ (program.rowNumber index ++ " :").toList :=
    ((program.printed_rowNumber index).append (by simp [Printed])).not_mem (by decide)
  have behind : '\x1b' ∉ ("  " ++ (rowColumns i name ++ "\n")).toList := by
    have columns := (printed_rowColumns is).not_mem (c := '\x1b') (by decide)
    simp [columns]
  have kept := EscapeForm.colour.remove_append_of_clear behind []
  rw [List.append_nil, EscapeForm.remove_nil, List.append_nil] at kept
  rw [← String.toList_inj, toList_withoutEscapes, paintedRow, String.append_assoc,
    String.append_assoc, String.toList_append, remove_paint .faint number, kept]
  simp [plainRow]

theorem mapM_listingRow (program : Program) {l : List Instruction}
    (listable : ∀ i ∈ l, Listable host i) :
    l.zipIdx.mapM (fun (i, index) =>
      listingRow host (Decimal.digits (program.size - 1)).length i index) =
        .ok (l.zipIdx.map fun (i, index) => program.paintedRow index i (i.op.name?.getD "")) :=
  mapM_eq_pure fun entry member =>
    listingRow_of_name? (name?_of_mem (fun i inside => (listable i inside).1) member)
      (listable _ (List.fst_mem_of_mem_zipIdx member)).2 entry.2

theorem listing_of_writes (width : host.Writes (program.size - 1 : Nat)) :
    program.listing host = String.join <$> program.toList.zipIdx.mapM fun (i, index) =>
      listingRow host (Decimal.digits (program.size - 1)).length i index := by
  rw [listing, Host.write_of_writes (by simpa using width)]

theorem listing_of_listable (width : host.Writes (program.size - 1 : Nat))
    (listable : ∀ i ∈ program.toList, Listable host i) : ∃ text,
    program.listing host = .ok text ∧
      withoutEscapes .colour text = String.join (program.plainRows.map (· ++ "\n")) := by
  refine ⟨_, by rw [listing_of_writes width, program.mapM_listingRow listable]; rfl, ?_⟩
  rw [withoutEscapes_join EscapeForm.inline_colour, plainRows, List.map_map, List.map_map]
  · refine congrArg String.join (List.map_congr_left fun entry member => ?_)
    exact withoutEscapes_paintedRow
      (name?_of_mem (fun i inside => (listable i inside).1) member) entry.2
  · intro row member
    obtain ⟨entry, -, rfl⟩ := List.mem_map.1 member
    exact whole_newline _

/-- A listing breaks off at the first instruction that cannot be listed. -/
theorem listing_breaks {shown rest : List Instruction} {reason : Unlisted}
    (width : host.Writes (program.size - 1 : Nat)) (split : program.toList = shown ++ i :: rest)
    (listable : ∀ j ∈ shown, Listable host j)
    (fails : ∀ width index, listingRow host width i index = .error reason) :
    program.listing host = .error reason := by
  have entries : program.toList.zipIdx =
      shown.zipIdx ++ (i, shown.length) :: rest.zipIdx (shown.length + 1) := by
    rw [split, List.zipIdx_append, List.zipIdx_cons, Nat.zero_add]
  rw [listing_of_writes width, entries, List.mapM_append, program.mapM_listingRow listable,
    List.mapM_cons]
  dsimp only
  rw [fails]
  rfl

instance (host : Host) (i : Instruction) : Decidable (Listable host i) :=
  inferInstanceAs (Decidable (_ ∧ _))

theorem listable_of_listing {text : String} (listed : program.listing host = .ok text) :
    host.Writes (program.size - 1 : Nat) ∧ ∀ i ∈ program, Listable host i := by
  have width : host.Writes (program.size - 1 : Nat) := by
    by_contra overlong
    obtain ⟨limit, limited⟩ := Host.exists_limit_of_not_writes overlong
    rw [listing, Host.write_eq_error_iff.2 ⟨limited, by simpa using overlong⟩] at listed
    cases listed
  refine ⟨width, fun i member => ?_⟩
  cases first : program.toList.find? fun i => decide ¬ Listable host i with
  | none => simpa using List.find?_eq_none.1 first i (Array.mem_toList_iff.2 member)
  | some i =>
    obtain ⟨refused, shown, rest, split, listable⟩ := List.find?_eq_some_iff_append.1 first
    obtain ⟨reason, fails⟩ := listingRow_of_not_listable (of_decide_eq_true refused)
    rw [listing_breaks width split (fun j inside => by simpa using listable j inside) fails]
      at listed
    cases listed

theorem readListing?_plainRows (named : ∀ i ∈ program.toList, i.op.name?.isSome) :
    readListing? (String.join (program.plainRows.map (· ++ "\n"))) = some program := by
  have clear : ∀ row ∈ program.plainRows, '\n' ∉ row.toList :=
    fun row member => (printed_plainRows named row member).not_mem (by decide)
  have rows : (program.plainRows.map String.toList).mapM readRow? =
      some (program.toList.zipIdx.map Prod.fst) := by
    rw [plainRows, List.map_map, List.mapM_map]
    exact mapM_eq_pure fun entry member => readRow?_plainRow (name?_of_mem named member) entry.2
  rw [readListing?, splitOn_join clear, List.dropLast_concat, rows, List.zipIdx_map_fst]
  rfl

theorem getElem?_plainRows {index : Nat} (found : program[index]? = some i)
    (is : i.op.name? = some name) :
    program.plainRows[index]? = some (program.plainRow index i name) := by
  have entry : program.toList[index]? = some i := by rwa [Array.getElem?_toList]
  simp [plainRows, entry, is]

/-- Listings lose nothing. A program whose instructions have names is listed, and a reader gets it
back from its listing without the colours, so different programs have different listings. That text
has one line for each instruction; the line starts with the index, which blanks in front fill up to
the width of the largest one, so the separators stand below each other. A listing breaks off at the
first instruction without a name, which it names. What a host cannot write, it cannot list: on one
that limits the digits that is an operand that has more, or an index. -/
theorem listing_loses_nothing (host : Host) :
    (∀ program : Program, (∀ i ∈ program, Listable host i) →
      host.Writes (program.size - 1 : Nat) → ∃ (text : String) (rows : List String),
      program.listing host = .ok text ∧
      readListing? (withoutEscapes .colour text) = some program ∧
      withoutEscapes .colour text = String.join (rows.map (· ++ "\n")) ∧
      (∀ row ∈ rows, '\n' ∉ row.toList) ∧ rows.length = program.size ∧
      ∀ (index : Nat) (i : Instruction), program[index]? = some i → ∃ name,
        let width := (Decimal.natural (program.size - 1)).length
        let number := padLeft width (Decimal.natural index)
        i.op.name? = some name ∧ number.length = width ∧ rows[index]? = some
          (number ++ " :  " ++ padRight 14 name ++ " " ++ Decimal.integer i.operand)) ∧
    (∀ (program other : Program) (text text' : String), program.listing host = .ok text →
      other.listing host = .ok text' → program ≠ other →
        withoutEscapes .colour text ≠ withoutEscapes .colour text') ∧
    (∀ (program : Program) (shown rest : List Instruction) (i : Instruction),
      program.toList = shown ++ i :: rest → (∀ j ∈ shown, Listable host j) →
      host.Writes (program.size - 1 : Nat) →
        (∀ code, i.op = .unassigned code → program.listing host = .error (.unnamed code)) ∧
        (i.op.name?.isSome → ¬ host.Writes i.operand → ∃ limit, host.digits = some limit ∧
          program.listing host = .error (.overlong limit))) ∧
    (∀ program : Program, ¬ host.Writes (program.size - 1 : Nat) → ∃ limit,
      host.digits = some limit ∧ program.listing host = .error (.overlong limit)) ∧
    (host.digits = none → ∀ n : Int, host.Writes n) := by
  have read {program : Program} (listable : ∀ i ∈ program, Listable host i)
      (width : host.Writes (program.size - 1 : Nat)) : ∃ text,
      program.listing host = .ok text ∧
        withoutEscapes .colour text = String.join (program.plainRows.map (· ++ "\n")) ∧
        readListing? (withoutEscapes .colour text) = some program := by
    have listable : ∀ i ∈ program.toList, Listable host i :=
      fun i member => listable i (Array.mem_toList_iff.1 member)
    obtain ⟨text, listed, plain⟩ := listing_of_listable width listable
    exact ⟨text, listed, plain,
      plain ▸ readListing?_plainRows fun i member => (listable i member).1⟩
  refine ⟨fun program listable width => ?_, fun program other text text' listed listed' => ?_,
    fun program shown rest i split listable width => ⟨fun code unknown => ?_,
      fun named overlong => ?_⟩, fun program overlong => ?_, Host.writes_of_unlimited⟩
  · obtain ⟨text, listed, plain, back⟩ := read listable width
    refine ⟨text, program.plainRows, listed, back, plain, fun row member => ?_, ?_, ?_⟩
    · exact (printed_plainRows (fun i member => (listable i (Array.mem_toList_iff.1 member)).1) row
        member).not_mem (by decide)
    · simp [plainRows]
    · intro index i found
      obtain ⟨lt, -⟩ := Array.getElem?_eq_some_iff.1 found
      obtain ⟨name, is⟩ :=
        Option.isSome_iff_exists.1 (listable i (Array.mem_of_getElem? found)).1
      refine ⟨name, is, length_rowNumber lt, ?_⟩
      rw [getElem?_plainRows found is, plainRow, rowColumns]
      simp [rowNumber, String.append_assoc]
  · intro different same
    obtain ⟨width, listable⟩ := listable_of_listing listed
    obtain ⟨width', listable'⟩ := listable_of_listing listed'
    obtain ⟨_, again, -, back⟩ := read listable width
    obtain ⟨_, again', -, back'⟩ := read listable' width'
    obtain rfl := Except.ok.inj (listed.symm.trans again)
    obtain rfl := Except.ok.inj (listed'.symm.trans again')
    rw [same, back'] at back
    exact different (Option.some.inj back).symm
  · exact listing_breaks width split listable (listingRow_of_unnamed unknown)
  · obtain ⟨name, is⟩ := Option.isSome_iff_exists.1 named
    obtain ⟨limit, limited⟩ := Host.exists_limit_of_not_writes overlong
    exact ⟨limit, limited, listing_breaks width split listable
      (listingRow_of_overlong is limited overlong)⟩
  · obtain ⟨limit, limited⟩ := Host.exists_limit_of_not_writes overlong
    refine ⟨limit, limited, ?_⟩
    rw [listing, Host.write_eq_error_iff.2 ⟨limited, by simpa using overlong⟩]

/-- A program with a negative operand, and one that it shares its first instruction with. -/
theorem listing_loses_nothing_negative :
    let program : Program := #[⟨.add, -3⟩, ⟨.jumpIfNonZero, 0⟩]
    let other : Program := #[⟨.add, -3⟩, ⟨.unassigned 9, 0⟩, ⟨.unassigned 10, 0⟩]
    (∀ i ∈ program, Listable {} i) ∧
      (∃ text, program.listing {} = .ok text ∧
        readListing? (withoutEscapes .colour text) = some program) ∧
      other.listing {} = .error (.unnamed 9) := by
  intro program other
  have first : Listable {} ⟨.add, -3⟩ := ⟨rfl, Host.writes_of_natAbs_le (by decide)⟩
  have second : Listable {} ⟨.jumpIfNonZero, 0⟩ := ⟨rfl, Host.writes_of_natAbs_le (by decide)⟩
  have listable : ∀ i ∈ program, Listable {} i := by simp [program, first, second]
  obtain ⟨reads, -, fails, -⟩ := listing_loses_nothing {}
  obtain ⟨text, rows, listed, back, -⟩ :=
    reads program listable (Host.writes_of_natAbs_le (by decide))
  exact ⟨listable, ⟨text, listed, back⟩,
    (fails other [⟨.add, -3⟩] [⟨.unassigned 10, 0⟩] ⟨.unassigned 9, 0⟩ rfl (by simpa using first)
      (Host.writes_of_natAbs_le (by decide))).1 9 rfl⟩

end Program
end TapeVM
