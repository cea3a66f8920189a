import Mathlib.Algebra.GroupWithZero.Nat
import Mathlib.Data.List.DropRight
import TapeVM.Proofs.Scan

/-! Placement: where the tokens of a source stand. A scan keeps a running line and column; here the
place of a token is read off what stands in front of it. Bytes and characters are treated alike, as
the units that a source is written in. -/
namespace TapeVM

/-- A way to write sources: what the units are, and which bytes each of them stands for. A unit is
the line feed, a symbol, or a comment, whose bytes are neither. -/
structure Coding (α : Type) where
  encode : α → List UInt8
  feed : α
  symbol? : α → Option Symbol
  encode_feed : encode feed = [0x0a]
  encode_symbol : ∀ {unit symbol}, symbol? unit = some symbol → encode unit = [symbol.byte]
  encode_comment : ∀ {unit}, unit ≠ feed → symbol? unit = none →
    ∀ byte ∈ encode unit, byte ≠ 0x0a ∧ Symbol.ofByte? byte = none

/-- Places in the order in which they are read. -/
def Location.Precedes (a b : Location) : Prop :=
  a.line < b.line ∨ a.line = b.line ∧ a.column < b.column

theorem Symbol.byte_ne_feed (symbol : Symbol) : symbol.byte ≠ 0x0a := by
  cases symbol <;> decide

/-- Comments move the column and nothing else. -/
theorem Scan.foldl_comment (bytes : List UInt8) (scan : Scan)
    (comment : ∀ byte ∈ bytes, byte ≠ 0x0a ∧ Symbol.ofByte? byte = none) :
    bytes.foldl feed scan = { scan with column := scan.column + bytes.length } := by
  induction bytes generalizing scan with
  | nil => rfl
  | cons byte bytes ih =>
    obtain ⟨newline, silent⟩ := comment byte List.mem_cons_self
    rw [List.foldl_cons, feed_comment scan newline silent,
      ih _ fun later member => comment later (List.mem_cons_of_mem _ member), List.length_cons]
    simp only [Nat.add_assoc, Nat.add_comm 1]

namespace Coding

variable {α : Type} (k : Coding α) {units before : List α} {unit : α} {symbol : Symbol}

theorem symbol?_feed : k.symbol? k.feed = none := by
  cases is : k.symbol? k.feed with
  | none => rfl
  | some symbol =>
    have same := (k.encode_symbol is).symm.trans k.encode_feed
    exact (symbol.byte_ne_feed (List.head_eq_of_cons_eq same)).elim

variable {k} in
theorem ne_feed_of_symbol (is : k.symbol? unit = some symbol) : unit ≠ k.feed := by
  rintro rfl
  rw [k.symbol?_feed] at is
  cases is

variable [DecidableEq α]

/-- The part of the last line that has been read. -/
def openLine (before : List α) : List α := before.rtakeWhile (· != k.feed)

/-- The place of a unit, by what stands in front of it. -/
def place (before : List α) : Location :=
  ⟨1 + before.count k.feed, 1 + ((k.openLine before).flatMap k.encode).length⟩

def tokens (units : List α) : List Token :=
  units.zipIdx.filterMap fun (unit, index) =>
    (k.symbol? unit).map fun symbol => ⟨.known symbol, k.place (units.take index)⟩

@[simp] theorem openLine_nil : k.openLine [] = [] := List.rtakeWhile_nil _

theorem openLine_feed (before : List α) : k.openLine (before ++ [k.feed]) = [] :=
  List.rtakeWhile_concat_neg _ _ _ (by simp)

variable {k} in
theorem openLine_concat (before : List α) (other : unit ≠ k.feed) :
    k.openLine (before ++ [unit]) = k.openLine before ++ [unit] :=
  List.rtakeWhile_concat_pos _ _ _ (by simpa using other)

@[simp] theorem tokens_nil : k.tokens [] = [] := rfl

theorem tokens_concat (units : List α) (unit : α) :
    k.tokens (units ++ [unit]) = k.tokens units ++
      ((k.symbol? unit).map fun symbol => ⟨.known symbol, k.place units⟩).toList := by
  have earlier : (units.zipIdx.filterMap fun (u, index) => (k.symbol? u).map fun symbol =>
      (⟨.known symbol, k.place ((units ++ [unit]).take index)⟩ : Token)) = k.tokens units := by
    refine List.filterMap_congr fun (u, index) member => ?_
    have inside := List.snd_lt_of_mem_zipIdx member
    simp only [List.take_append_of_le_length (Nat.le_of_lt (by simpa using inside))]
  rw [tokens, List.zipIdx_append, List.filterMap_append, earlier]
  cases is : k.symbol? unit <;> simp [is]

/-- A scan that has read some units knows the place it is at and has found their tokens. -/
structure Tracks (units : List α) (scan : Scan) : Prop where
  line : scan.line = 1 + units.count k.feed
  column : scan.column = ((k.openLine units).flatMap k.encode).length
  tokens : scan.tokens.toList = k.tokens units

variable {k} in
theorem Tracks.read {scan : Scan} (tracks : k.Tracks units scan) (unit : α) :
    k.Tracks (units ++ [unit]) ((k.encode unit).foldl Scan.feed scan) := by
  obtain ⟨line, column, tokens⟩ := tracks
  by_cases newline : unit = k.feed
  · subst newline
    rw [k.encode_feed, List.foldl_cons, List.foldl_nil, Scan.feed_newline]
    refine ⟨?_, ?_, ?_⟩
    · simp [line, Nat.add_assoc]
    · simp [k.openLine_feed]
    · simp [k.tokens_concat, k.symbol?_feed, tokens]
  · cases is : k.symbol? unit with
    | some symbol =>
      rw [k.encode_symbol is, List.foldl_cons, List.foldl_nil, Scan.feed_symbol]
      refine ⟨?_, ?_, ?_⟩
      · simp [line, newline]
      · simp [openLine_concat units newline, column, k.encode_symbol is]
      · simp [k.tokens_concat, is, tokens, place, line, column, Int.add_comm]
    | none =>
      rw [Scan.foldl_comment _ _ (k.encode_comment newline is)]
      refine ⟨?_, ?_, ?_⟩
      · simp [line, newline]
      · simp [openLine_concat units newline, column]
      · simp [k.tokens_concat, is, tokens]

theorem tracks (units : List α) : k.Tracks units ((units.flatMap k.encode).foldl Scan.feed {}) := by
  induction units using List.reverseRecOn with
  | nil => exact ⟨rfl, by simp, rfl⟩
  | append_singleton units unit ih =>
    rw [List.flatMap_append, List.foldl_append]
    simpa using ih.read unit

theorem tokens_eq {source : Source} (encoded : source.toBytes = units.flatMap k.encode) :
    source.tokens.toList = k.tokens units := by
  rw [Source.tokens, encoded]
  exact (k.tracks units).tokens

omit [DecidableEq α] in
theorem symbols_eq {source : Source} (encoded : source.toBytes = units.flatMap k.encode) :
    source.symbols = units.filterMap k.symbol? := by
  have single (unit : α) : (k.encode unit).filterMap Symbol.ofByte? = (k.symbol? unit).toList := by
    cases is : k.symbol? unit with
    | some symbol => simp [k.encode_symbol is]
    | none =>
      by_cases newline : unit = k.feed
      · rw [newline, k.encode_feed]
        rfl
      · simpa [List.filterMap_eq_nil_iff] using
          fun byte member => (k.encode_comment newline is byte member).2
  rw [Source.symbols, encoded, List.filterMap_flatMap]
  simp only [single]
  exact (List.filterMap_eq_flatMap_toList _ _).symm

/-- A token is that of a unit, and the tokens in front of it are those of the units in front. -/
theorem exists_cut {first later : List Token} {token : Token}
    (cut : k.tokens units = first ++ token :: later) :
    ∃ before unit after symbol, units = before ++ unit :: after ∧ k.symbol? unit = some symbol ∧
      token = ⟨.known symbol, k.place before⟩ ∧ k.tokens before = first := by
  induction units using List.reverseRecOn generalizing later with
  | nil => simp at cut
  | append_singleton units unit ih =>
    rw [k.tokens_concat] at cut
    cases is : k.symbol? unit with
    | none =>
      obtain ⟨before, u, after, symbol, rfl, rest⟩ := ih (by simpa [is] using cut)
      exact ⟨before, u, after ++ [unit], symbol, by simp, rest⟩
    | some symbol =>
      rcases List.eq_nil_or_concat' later with rfl | ⟨later, last, rfl⟩
      · obtain ⟨same, here⟩ := List.append_inj' cut (by simp [is])
        exact ⟨units, unit, [], symbol, rfl, is, by simpa [is] using here.symm, same⟩
      · rw [← List.cons_append, ← List.append_assoc] at cut
        obtain ⟨same, -⟩ := List.append_inj' cut (by simp [is])
        obtain ⟨before, u, after, symbol, rfl, rest⟩ := ih same
        exact ⟨before, u, after ++ [unit], symbol, by simp, rest⟩

theorem place_feed (before : List α) :
    (k.place (before ++ [k.feed])).line = (k.place before).line + 1 := by
  simp [place]
  omega

variable {k} in
theorem place_concat (before : List α) (other : unit ≠ k.feed) :
    k.place (before ++ [unit]) =
      ⟨(k.place before).line, (k.place before).column + (k.encode unit).length⟩ := by
  simp [place, openLine_concat before other, other]
  omega

theorem precedes_concat {location : Location} (earlier : location.Precedes (k.place before))
    (unit : α) : location.Precedes (k.place (before ++ [unit])) := by
  by_cases newline : unit = k.feed
  · subst newline
    have next := k.place_feed before
    unfold Location.Precedes at *
    omega
  · rw [place_concat before newline]
    unfold Location.Precedes at *
    dsimp only
    omega

theorem precedes_place (units : List α) :
    ∀ token ∈ k.tokens units, token.location.Precedes (k.place units) := by
  induction units using List.reverseRecOn with
  | nil => simp
  | append_singleton units unit ih =>
    intro token member
    rw [k.tokens_concat, List.mem_append] at member
    rcases member with member | member
    · exact k.precedes_concat (ih token member) unit
    · cases is : k.symbol? unit with
      | none => simp [is] at member
      | some symbol =>
        obtain rfl : token = ⟨.known symbol, k.place units⟩ := by simpa [is] using member
        rw [place_concat units (ne_feed_of_symbol is), k.encode_symbol is]
        exact .inr ⟨rfl, Int.lt_succ _⟩

theorem pairwise_tokens (units : List α) :
    (k.tokens units).Pairwise fun a b => a.location.Precedes b.location := by
  induction units using List.reverseRecOn with
  | nil => simp
  | append_singleton units unit ih =>
    rw [k.tokens_concat]
    cases is : k.symbol? unit with
    | none => simpa using ih
    | some symbol =>
      refine List.pairwise_append.2 ⟨ih, List.pairwise_singleton _ _, ?_⟩
      intro earlier member token last
      obtain rfl : token = ⟨.known symbol, k.place units⟩ := by simpa using last
      exact k.precedes_place units earlier member

end Coding

def Coding.ofBytes : Coding UInt8 where
  encode byte := [byte]
  feed := 0x0a
  symbol? := Symbol.ofByte?
  encode_feed := rfl
  encode_symbol is := by rw [Symbol.ofByte?_eq_some_iff.1 is]
  encode_comment newline is := by simp [newline, is]

theorem Source.tokens_bytes (bytes : List UInt8) :
    (Source.bytes bytes).tokens.toList = Coding.ofBytes.tokens bytes :=
  Coding.ofBytes.tokens_eq (by simp [toBytes, Coding.ofBytes])

/-- The offset of the last line feed, and one before the first byte if there is none. -/
def lastFeed (bytes : List UInt8) : Int :=
  match (bytes.idxsOf 0x0a).getLast? with
  | some offset => offset
  | none => -1

theorem lastFeed_concat (bytes : List UInt8) (byte : UInt8) :
    lastFeed (bytes ++ [byte]) = if byte = 0x0a then (bytes.length : Int) else lastFeed bytes := by
  by_cases newline : byte = 0x0a
  · simp [lastFeed, List.idxsOf_append, newline]
  · simp [lastFeed, List.idxsOf_append, newline]

theorem Coding.length_openLine (bytes : List UInt8) :
    ((ofBytes.openLine bytes).length : Int) = bytes.length - 1 - lastFeed bytes := by
  induction bytes using List.reverseRecOn with
  | nil => rfl
  | append_singleton bytes byte ih =>
    rw [lastFeed_concat]
    by_cases newline : byte = 0x0a
    · subst newline
      rw [show ofBytes.openLine (bytes ++ [0x0a]) = [] from ofBytes.openLine_feed bytes]
      simp
    · rw [openLine_concat bytes (show byte ≠ ofBytes.feed from newline), if_neg newline]
      simp only [List.length_append, List.length_singleton, Int.natCast_add, ih]
      omega

theorem Coding.place_ofBytes (before : List UInt8) :
    ofBytes.place before = ⟨before.count 0x0a + 1, (ofBytes.openLine before).length + 1⟩ := by
  have encoded : (ofBytes.openLine before).flatMap ofBytes.encode = ofBytes.openLine before := by
    simp [ofBytes]
  rw [place, encoded, Int.add_comm, Int.add_comm 1]
  rfl

theorem Coding.place_ofBytes_lastFeed (before : List UInt8) :
    ofBytes.place before = ⟨1 + before.count 0x0a, before.length - lastFeed before⟩ := by
  have length := length_openLine before
  rw [place_ofBytes, Location.mk.injEq]
  exact ⟨Int.add_comm _ _, by omega⟩

section Lines

variable {α : Type} [DecidableEq α] (a : α)

theorem length_splitOn (l : List α) : (l.splitOn a).length = l.count a + 1 := by
  induction l with
  | nil => rfl
  | cons b l ih =>
    rw [List.splitOn_cons_eq_if_modifyHead]
    by_cases same : b = a <;> simp [same, ih]

theorem getElem?_zero_splitOn (l : List α) :
    (l.splitOn a)[0]? = some (l.takeWhile (· != a)) := by
  induction l with
  | nil => rfl
  | cons b l ih =>
    rw [List.splitOn_cons_eq_if_modifyHead]
    by_cases same : b = a <;> simp [same, ih]

theorem getElem?_count_splitOn {b : α} (before after : List α) (other : b ≠ a) :
    ((before ++ b :: after).splitOn a)[before.count a]? =
      some (before.rtakeWhile (· != a) ++ b :: after.takeWhile (· != a)) := by
  have open_free : ∀ c ∈ before.rtakeWhile (· != a), (c != a) = true :=
    fun c member => List.mem_rtakeWhile_imp (p := (· != a)) member
  have absent : (before.rtakeWhile (· != a)).count a = 0 :=
    List.count_eq_zero.2 fun member => by simpa using open_free a member
  have first : ((before.rtakeWhile (· != a) ++ b :: after).splitOn a)[0]? =
      some (before.rtakeWhile (· != a) ++ b :: after.takeWhile (· != a)) := by
    rw [getElem?_zero_splitOn, List.takeWhile_append_of_pos open_free]
    simp [other]
  have split := List.rdropWhile_append_rtakeWhile (p := (· != a)) (l := before)
  have ends := List.rdropWhile_last_not (p := (· != a)) (l := before)
  generalize before.rtakeWhile (· != a) = line at split absent first ⊢
  generalize before.rdropWhile (· != a) = closed at split ends
  subst split
  rcases List.eq_nil_or_concat' closed with rfl | ⟨earlier, c, rfl⟩
  · simpa [absent] using first
  · obtain rfl : c = a := by simpa using ends
    rw [List.append_assoc, List.append_assoc, List.singleton_append,
      List.splitOn_append_cons_self, List.getElem?_append_right (by simp [length_splitOn, absent])]
    simpa [length_splitOn, absent] using first

end Lines

/-- The byte of a token is found on its line, in its column. -/
theorem Coding.getElem?_line {bytes before after : List UInt8} {symbol : Symbol}
    (split : bytes = before ++ symbol.byte :: after) :
    (bytes.splitOn 0x0a)[before.count 0x0a]? =
      some (ofBytes.openLine before ++ symbol.byte :: after.takeWhile (· != 0x0a)) := by
  rw [split]
  exact getElem?_count_splitOn 0x0a before after symbol.byte_ne_feed

namespace Symbol

def ofChar? : Char → Option Symbol
  | '+' => some increment
  | '-' => some decrement
  | '<' => some moveLeft
  | '>' => some moveRight
  | '[' => some loopStart
  | ']' => some loopEnd
  | ',' => some input
  | '.' => some output
  | _ => none

theorem ofChar?_eq_some_iff {c : Char} {s : Symbol} : ofChar? c = some s ↔ c = s.char := by
  constructor
  · intro is
    unfold ofChar? at is
    split at is <;> cases is <;> rfl
  · rintro rfl
    cases s <;> rfl

theorem ofChar?_isSome_iff {c : Char} :
    (ofChar? c).isSome ↔ c ∈ ['+', '-', '<', '>', '[', ']', ',', '.'] := by
  unfold ofChar?
  split <;> simp_all

theorem utf8EncodeChar_char (s : Symbol) : String.utf8EncodeChar s.char = [s.byte] := by
  cases s <;> rfl

theorem toNat_byte (s : Symbol) : s.byte.toNat = s.char.toNat := by
  cases s <;> rfl

end Symbol

/-- A byte of an encoded character is the character itself, or it is not one of the first 128. -/
theorem toNat_of_mem_utf8EncodeChar {c : Char} {byte : UInt8}
    (member : byte ∈ String.utf8EncodeChar c) : byte.toNat = c.toNat ∨ 128 ≤ byte.toNat := by
  have lead (n : Nat) {size mark : Nat} (high : 128 ≤ mark) (fits : size + mark ≤ 256)
      (positive : 0 < size) : 128 ≤ (UInt8.ofNat (n % size + mark)).toNat := by
    have := Nat.mod_lt n positive
    rw [UInt8.toNat_ofNat', Nat.mod_eq_of_lt (by omega)]
    omega
  unfold String.utf8EncodeChar at member
  dsimp only at member
  split at member
  · left
    rw [List.mem_singleton.1 member, UInt8.toNat_ofNat']
    exact Nat.mod_eq_of_lt (by omega)
  · right
    split at member
    · simp only [List.mem_cons, List.not_mem_nil, or_false] at member
      rcases member with rfl | rfl <;> exact lead _ (by decide) (by decide) (by decide)
    · split at member <;> simp only [List.mem_cons, List.not_mem_nil, or_false] at member
      · rcases member with rfl | rfl | rfl <;> exact lead _ (by decide) (by decide) (by decide)
      · rcases member with rfl | rfl | rfl | rfl <;>
          exact lead _ (by decide) (by decide) (by decide)

def Coding.ofCharacters : Coding Char where
  encode := String.utf8EncodeChar
  feed := '\n'
  symbol? := Symbol.ofChar?
  encode_feed := rfl
  encode_symbol is := by
    rw [Symbol.ofChar?_eq_some_iff.1 is, Symbol.utf8EncodeChar_char]
  encode_comment {c} newline is byte member := by
    have low : byte.toNat < 128 → byte.toNat = c.toNat := fun low =>
      (toNat_of_mem_utf8EncodeChar member).resolve_right (by omega)
    constructor
    · rintro rfl
      exact newline (Char.toNat_inj.1 (low (by decide)).symm)
    · cases here : Symbol.ofByte? byte with
      | none => rfl
      | some symbol =>
        obtain rfl := Symbol.ofByte?_eq_some_iff.1 here
        have same := low (by cases symbol <;> decide)
        rw [Symbol.toNat_byte] at same
        rw [Symbol.ofChar?_eq_some_iff.2 (Char.toNat_inj.1 same).symm] at is
        cases is

theorem Source.tokens_text (text : String) :
    (Source.text text).tokens.toList = Coding.ofCharacters.tokens text.toList :=
  Coding.ofCharacters.tokens_eq rfl

theorem Source.count_feed_text (text : String) :
    (Source.text text).toBytes.count 0x0a = text.toList.count '\n' := by
  have bytes := (Coding.ofBytes.tracks (Source.text text).toBytes).line
  have characters := (Coding.ofCharacters.tracks text.toList).line
  have same : (Source.text text).toBytes.flatMap Coding.ofBytes.encode =
      text.toList.flatMap Coding.ofCharacters.encode := by
    simp [Coding.ofBytes, Coding.ofCharacters, toBytes]
  rw [same] at bytes
  exact Nat.add_left_cancel (bytes.symm.trans characters)

/-- The column of a character, by the lengths of the encoded characters in front of it. -/
theorem Coding.place_ofCharacters (before : List Char) :
    ofCharacters.place before = ⟨1 + before.count '\n',
      1 + (((before.rtakeWhile (· != '\n')).map Char.utf8Size).sum : Nat)⟩ := by
  simp [place, openLine, ofCharacters, List.length_flatMap, String.length_utf8EncodeChar]

namespace Source

theorem names_tokens (source : Source) :
    (source.tokens.toList.map fun token => token.terminal.name) =
      source.symbols.map Symbol.name := by
  have named := congrArg (List.map Terminal.name) source.terminals_tokens
  simpa [Function.comp_def, Terminal.name] using named

theorem symbolText_text (text : String) :
    (Source.text text).symbolText = String.ofList
      (text.toList.filter fun c => c ∈ ['+', '-', '<', '>', '[', ']', ',', '.']) := by
  have encoded : (Source.text text).toBytes = text.toList.flatMap Coding.ofCharacters.encode := rfl
  rw [symbolText, Coding.ofCharacters.symbols_eq encoded, List.map_filterMap,
    ← List.filterMap_eq_filter]
  refine congrArg String.ofList (List.filterMap_congr fun c _ => ?_)
  change (Symbol.ofChar? c).map Symbol.char = _
  cases is : Symbol.ofChar? c with
  | some symbol =>
    have listed := Symbol.ofChar?_isSome_iff.1 (by rw [is]; rfl)
    rw [Symbol.ofChar?_eq_some_iff.1 is] at listed ⊢
    simp [Option.guard, listed]
  | none =>
    have unlisted : ¬ (Symbol.ofChar? c).isSome := by simp [is]
    rw [Symbol.ofChar?_isSome_iff] at unlisted
    simp [Option.guard, unlisted]

/-- The tokens of a source are its symbols, one for each, where they stand. A line is counted by the
line feeds in front, a column by the bytes since the last of them; and a text is counted as its
UTF-8 bytes, none of which is a symbol or a line feed that the text does not hold itself. -/
theorem tokens_stand_at_symbols :
    (∀ bytes : List UInt8,
      (Source.bytes bytes).tokens.toList = bytes.zipIdx.filterMap (fun (byte, offset) =>
        (Symbol.ofByte? byte).map fun symbol => ⟨.known symbol,
          ⟨1 + (bytes.take offset).count 0x0a, offset - lastFeed (bytes.take offset)⟩⟩) ∧
      (∀ token ∈ (Source.bytes bytes).tokens, ∃ (symbol : Symbol) (line column : Nat),
        token = ⟨.known symbol, ⟨line + 1, column + 1⟩⟩ ∧
        ((bytes.splitOn 0x0a)[line]?.bind fun piece => piece[column]?) = some symbol.byte) ∧
      (Source.bytes bytes).tokens.toList.Pairwise fun a b => a.location.Precedes b.location) ∧
    (∀ source : Source,
      (source.tokens.toList.map fun token => some token.terminal.name) =
        (source.symbolText.toList.map fun c => (Symbol.ofChar? c).map Symbol.name) ∧
      (Source.text source.symbolText).symbolText = source.symbolText ∧
      ((Source.text source.symbolText).tokens.toList.map fun token => token.terminal.name) =
        source.tokens.toList.map fun token => token.terminal.name) ∧
    (∀ text : String,
      (Source.text text).symbolText = String.ofList
        (text.toList.filter fun c => c ∈ ['+', '-', '<', '>', '[', ']', ',', '.']) ∧
      (Source.text text).toBytes.count 0x0a = text.toList.count '\n' ∧
      (Source.text text).tokens.toList = text.toList.zipIdx.filterMap fun (c, index) =>
        (Symbol.ofChar? c).map fun symbol => ⟨.known symbol,
          ⟨1 + (text.toList.take index).count '\n',
            1 + ((((text.toList.take index).rtakeWhile (· != '\n')).map Char.utf8Size).sum : Nat)⟩⟩) := by
  refine ⟨fun bytes => ⟨?_, ?_, ?_⟩, fun source => ⟨?_, ?_, ?_⟩, fun text => ⟨?_, ?_, ?_⟩⟩
  · rw [tokens_bytes]
    refine List.filterMap_congr fun (byte, offset) member => ?_
    have inside : offset < bytes.length := by simpa using List.snd_lt_of_mem_zipIdx member
    simp only [Coding.place_ofBytes_lastFeed, List.length_take, Nat.min_eq_left (Nat.le_of_lt inside)]
    rfl
  · intro token member
    rw [← Array.mem_toList_iff, tokens_bytes] at member
    obtain ⟨first, later, cut⟩ := List.append_of_mem member
    obtain ⟨before, byte, after, symbol, split, is, rfl, -⟩ := Coding.ofBytes.exists_cut cut
    obtain rfl := Symbol.ofByte?_eq_some_iff.1 is
    refine ⟨symbol, before.count 0x0a, (Coding.ofBytes.openLine before).length, ?_, ?_⟩
    · rw [Coding.place_ofBytes]
    · rw [Coding.getElem?_line split]
      simp
  · rw [tokens_bytes]
    exact Coding.ofBytes.pairwise_tokens bytes
  · have read (symbol : Symbol) : Symbol.ofChar? symbol.char = some symbol :=
      Symbol.ofChar?_eq_some_iff.2 rfl
    have named := congrArg (List.map some) source.names_tokens
    simpa [symbolText, Function.comp_def, read] using named
  · rw [symbolText, symbolText, symbols_text]
  · rw [names_tokens, names_tokens, symbolText, symbols_text]
  · exact symbolText_text text
  · exact count_feed_text text
  · rw [tokens_text]
    refine List.filterMap_congr fun (c, index) _ => ?_
    simp only [Coding.place_ofCharacters]
    rfl

example : (Source.text "é+\r\n ü[").tokens =
    #[⟨.known .increment, ⟨1, 3⟩⟩, ⟨.known .loopStart, ⟨2, 4⟩⟩] := by decide

end Source
end TapeVM
