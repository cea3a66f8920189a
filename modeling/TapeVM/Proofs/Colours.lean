import Mathlib.Data.List.TakeWhile
import TapeVM.Proofs.Escapes
import TapeVM.Text.Style

/-! Colour codes in any text, also one that is not made of whole lines. The codes of a text never
overlap, and removal takes out the characters that stand in one of them and no others. It may bring
together pieces that the removed codes kept apart, and these may make up another code. -/
namespace TapeVM.Text

open EscapeForm

/-- One colour code and nothing else: an escape, a bracket, digits and semicolons, and an `m`. -/
def ColourCode (code : List Char) : Prop :=
  ∃ numbers : List Char, (∀ c ∈ numbers, c.isDigit ∨ c = ';') ∧
    code = '\x1b' :: '[' :: (numbers ++ ['m'])

variable {text code code' before before' after after' first second rest : List Char} {place : Nat}

theorem parameter_colour_iff {c : Char} : colour.parameter c = true ↔ c.isDigit ∨ c = ';' := by
  simp [colour]

theorem after?_bracket (body : List Char) :
    colour.after? ('\x1b' :: '[' :: body) = match body.dropWhile colour.parameter with
      | last :: rest => if last = 'm' then some rest else none
      | [] => none := by
  have none_between : (body.dropWhile colour.parameter).dropWhile colour.intermediate =
      body.dropWhile colour.parameter := by
    cases body.dropWhile colour.parameter <;> rfl
  rw [after?, none_between]
  cases body.dropWhile colour.parameter with
  | nil => rfl
  | cons last rest => simp [colour]

theorem after?_colour_iff :
    colour.after? text = some rest ↔ ∃ code, ColourCode code ∧ text = code ++ rest := by
  constructor
  · intro found
    have start : ∃ body, text = '\x1b' :: '[' :: body := by
      unfold after? at found
      split at found
      · exact ⟨_, rfl⟩
      · cases found
    obtain ⟨body, rfl⟩ := start
    rw [after?_bracket] at found
    have parts := List.takeWhile_append_dropWhile (p := colour.parameter) (l := body)
    split at found
    · rename_i last tail behind
      split at found
      · rename_i ends
        obtain rfl := Option.some.inj found
        refine ⟨'\x1b' :: '[' :: (body.takeWhile colour.parameter ++ ['m']), ⟨_, ?_, rfl⟩, ?_⟩
        · intro c member
          exact parameter_colour_iff.1 (List.mem_takeWhile_imp member)
        · rw [List.cons_append, List.cons_append, List.append_assoc, List.singleton_append, ← ends,
            ← behind, parts]
      · cases found
    · cases found
  · rintro ⟨_, ⟨numbers, all, rfl⟩, rfl⟩
    have dropped : (numbers ++ 'm' :: rest).dropWhile colour.parameter = 'm' :: rest :=
      List.dropWhile_append_of_pos fun c member => parameter_colour_iff.2 (all c member)
    simp [after?_bracket, dropped]

theorem after?_colour_eq_none_iff :
    colour.after? text = none ↔ ∀ code, ColourCode code → ¬ code <+: text := by
  rw [Option.eq_none_iff_forall_ne_some]
  constructor
  · rintro nothing code is ⟨rest, rfl⟩
    exact nothing rest (after?_colour_iff.2 ⟨code, is, rfl⟩)
  · intro nothing rest found
    obtain ⟨code, is, rfl⟩ := after?_colour_iff.1 found
    exact nothing code is (List.prefix_append code rest)

namespace ColourCode

theorem exists_tail (is : ColourCode code) : ∃ tail, code = '\x1b' :: tail ∧ '\x1b' ∉ tail := by
  obtain ⟨numbers, all, rfl⟩ := is
  refine ⟨_, rfl, fun member => ?_⟩
  have inside : '\x1b' ∈ numbers := by simpa using member
  exact absurd (all _ inside) (by decide)

theorem append_inj (is : ColourCode code) (is' : ColourCode code')
    (same : code ++ after = code' ++ after') : code = code' ∧ after = after' := by
  have found : colour.after? (code ++ after) = some after := after?_colour_iff.2 ⟨code, is, rfl⟩
  have found' : colour.after? (code ++ after) = some after' :=
    after?_colour_iff.2 ⟨code', is', same⟩
  obtain rfl : after = after' := Option.some.inj (found.symm.trans found')
  exact ⟨List.append_cancel_right same, rfl⟩

/-- An escape is where a code begins, or it is behind the code. -/
theorem length_le (is : ColourCode code) (split : code ++ after = before ++ '\x1b' :: rest)
    (inside : before ≠ []) : code.length ≤ before.length := by
  obtain ⟨tail, rfl, clear⟩ := is.exists_tail
  obtain ⟨c, before, rfl⟩ := List.exists_cons_of_ne_nil inside
  rcases List.append_eq_append_iff.1 split with ⟨more, longer, -⟩ | ⟨more, shorter, same⟩
  · rw [longer]
    simp
  · cases more with
    | nil => simp [shorter]
    | cons d more =>
      obtain rfl : '\x1b' = d := (List.cons.inj same).1
      rw [List.cons_append] at shorter
      exact (clear (by simp [(List.cons.inj shorter).2])).elim

/-- Of two codes in a text the one that begins first ends before the other begins. -/
theorem length_le_of_lt (is : ColourCode code) (is' : ColourCode code')
    (same : before ++ code ++ after = before' ++ code' ++ after')
    (lt : before.length < before'.length) : before.length + code.length ≤ before'.length := by
  obtain ⟨tail, rfl, -⟩ := is'.exists_tail
  rw [List.append_assoc, List.append_assoc] at same
  rcases List.append_eq_append_iff.1 same with ⟨gap, rfl, split⟩ | ⟨gap, rfl, -⟩
  · have inside : gap ≠ [] := by
      rintro rfl
      simp at lt
    have := is.length_le split inside
    rw [List.length_append]
    omega
  · rw [List.length_append] at lt
    omega

end ColourCode

theorem eq_or_apart (is : ColourCode code) (is' : ColourCode code')
    (same : before ++ code ++ after = before' ++ code' ++ after') :
    before = before' ∧ code = code' ∨ before.length + code.length ≤ before'.length ∨
      before'.length + code'.length ≤ before.length := by
  rcases Nat.lt_trichotomy before.length before'.length with lt | level | gt
  · exact .inr (.inl (is.length_le_of_lt is' same lt))
  · rw [List.append_assoc, List.append_assoc] at same
    obtain ⟨rfl, behind⟩ := List.append_inj same level
    exact .inl ⟨rfl, (is.append_inj is' behind).1⟩
  · exact .inr (.inr (is'.length_le_of_lt is same.symm gt))

/-- A code that begins in the first of two texts, when they are joined, and ends in the second. -/
def Crossed (first second : List Char) : Prop :=
  ∃ before code after, ColourCode code ∧ first ++ second = before ++ code ++ after ∧
    before.length < first.length ∧ first.length < before.length + code.length

theorem not_crossed_code (is : ColourCode code) (rest : List Char) : ¬ Crossed code rest := by
  rintro ⟨before, code', after, is', split, starts, ends⟩
  have whole : [] ++ code ++ rest = before ++ code' ++ after := split
  rcases eq_or_apart is is' whole with ⟨rfl, rfl⟩ | late | early
  · simp at ends
  · rw [List.length_nil] at late
    omega
  · rw [List.length_nil] at early
    omega

theorem not_crossed_of_after? {c : Char} (nothing : colour.after? (c :: rest) = none) :
    ¬ Crossed [c] rest := by
  rintro ⟨before, code, after, is, split, starts, -⟩
  obtain rfl : before = [] := List.length_eq_zero_iff.1 (Nat.lt_one_iff.1 starts)
  exact after?_colour_eq_none_iff.1 nothing code is ⟨after, split.symm⟩

theorem not_crossed_escape (first rest : List Char) : ¬ Crossed first ('\x1b' :: rest) := by
  rintro ⟨before, code, after, is, split, starts, ends⟩
  rw [List.append_assoc] at split
  rcases List.append_eq_append_iff.1 split with ⟨gap, rfl, -⟩ | ⟨gap, rfl, behind⟩
  · simp only [List.length_append] at starts
    omega
  · have inside : gap ≠ [] := by
      rintro rfl
      simp at starts
    have := is.length_le behind inside
    rw [List.length_append] at ends
    omega

/-- A place of a text that is inside a code. -/
def Inside (text : List Char) (place : Nat) : Prop :=
  ∃ before code after, ColourCode code ∧ text = before ++ code ++ after ∧
    before.length ≤ place ∧ place < before.length + code.length

theorem inside_iff : Inside text place ↔ ∃ start ≤ place,
    ∃ rest ∈ colour.after? (text.drop start), place + rest.length < text.length := by
  constructor
  · rintro ⟨before, code, after, is, rfl, starts, ends⟩
    refine ⟨before.length, starts, after, ?_, ?_⟩
    · rw [List.append_assoc, List.drop_left]
      exact after?_colour_iff.2 ⟨code, is, rfl⟩
    · simp only [List.length_append]
      omega
  · rintro ⟨start, starts, rest, found, ends⟩
    obtain ⟨code, is, split⟩ := after?_colour_iff.1 found
    have whole : text = text.take start ++ code ++ rest := by
      rw [List.append_assoc, ← split, List.take_append_drop]
    have sizes := congrArg List.length whole
    simp only [List.length_append] at sizes
    exact ⟨text.take start, code, rest, is, whole, by simp; omega, by omega⟩

instance (text : List Char) (place : Nat) : Decidable (Inside text place) :=
  decidable_of_iff _ inside_iff.symm

theorem inside_left_iff (seam : ¬ Crossed first second) (lt : place < first.length) :
    Inside (first ++ second) place ↔ Inside first place := by
  constructor
  · rintro ⟨before, code, after, is, split, starts, ends⟩
    rcases List.append_eq_append_iff.1 split with ⟨gap, longer, -⟩ | ⟨gap, shorter, -⟩
    · have sizes := congrArg List.length longer
      simp only [List.length_append] at sizes
      cases gap with
      | nil => exact ⟨before, code, [], is, by simp [longer], starts, ends⟩
      | cons c gap =>
        refine (seam ⟨before, code, after, is, split, by omega, ?_⟩).elim
        simp at sizes
        omega
    · exact ⟨before, code, gap, is, shorter, starts, ends⟩
  · rintro ⟨before, code, after, is, rfl, starts, ends⟩
    exact ⟨before, code, after ++ second, is, by simp, starts, ends⟩

theorem inside_right_iff (seam : ¬ Crossed first second) :
    Inside (first ++ second) (first.length + place) ↔ Inside second place := by
  constructor
  · rintro ⟨before, code, after, is, split, starts, ends⟩
    have late : first.length ≤ before.length := by
      by_contra early
      exact seam ⟨before, code, after, is, split, by omega, by omega⟩
    rw [List.append_assoc] at split
    rcases List.append_eq_append_iff.1 split with ⟨gap, rfl, behind⟩ | ⟨gap, rfl, behind⟩
    · rw [List.length_append] at starts ends
      exact ⟨gap, code, after, is, by simp [behind], by omega, by omega⟩
    · rw [List.length_append] at late ends
      obtain rfl : gap = [] := List.length_eq_zero_iff.1 (by omega)
      exact ⟨[], code, after, is, behind.symm, by simp, by rw [List.length_nil] at *; omega⟩
  · rintro ⟨before, code, after, is, rfl, starts, ends⟩
    refine ⟨first ++ before, code, after, is, by simp, ?_, ?_⟩
    · rw [List.length_append]
      omega
    · rw [List.length_append]
      omega

/-- The characters of a text that are inside no code of it. -/
def visible (text : List Char) : List Char :=
  (text.zipIdx.filter fun (_, place) => ¬ Inside text place).map Prod.fst

theorem visible_append (seam : ¬ Crossed first second) :
    visible (first ++ second) = visible first ++ visible second := by
  rw [visible, visible, visible, List.zipIdx_append, List.filter_append, List.map_append]
  congr 1
  · refine congrArg _ ?_
    refine List.filter_congr fun ⟨c, place⟩ member => ?_
    have lt : place < first.length := by simpa using List.snd_lt_of_mem_zipIdx member
    simp [inside_left_iff seam lt]
  · rw [List.zipIdx_eq_map_add, List.filter_map, List.map_map]
    simp [Function.comp_def, inside_right_iff seam]

theorem visible_code (is : ColourCode code) : visible code = [] := by
  rw [visible, List.map_eq_nil_iff, List.filter_eq_nil_iff]
  rintro ⟨c, place⟩ member
  have lt := List.snd_lt_of_mem_zipIdx member
  have inside : Inside code place := ⟨[], code, [], is, by simp, Nat.zero_le _, by simpa using lt⟩
  simp [inside]

theorem visible_eq_self_iff :
    visible text = text ↔ ∀ code, ColourCode code → ¬ code <:+: text := by
  constructor
  · rintro same code is ⟨before, after, split⟩
    obtain ⟨tail, rfl, -⟩ := is.exists_tail
    have inside : Inside text before.length :=
      ⟨before, _, after, is, split.symm, Nat.le_refl _, by simp⟩
    have first : ('\x1b', before.length) ∈ text.zipIdx := by
      simp [List.mem_zipIdx_iff_getElem?, ← split]
    have sizes := congrArg List.length same
    rw [visible, List.length_map, ← List.length_zipIdx (i := 0) (l := text)] at sizes
    have outside := List.length_filter_eq_length_iff.1 sizes _ first
    exact absurd inside (by simpa using outside)
  · intro none_stands
    rw [visible, List.filter_eq_self.2, List.zipIdx_map_fst]
    rintro ⟨c, place⟩ -
    have outside : ¬ Inside text place := by
      rintro ⟨before, code, after, is, split, -⟩
      exact none_stands code is ⟨before, after, split.symm⟩
    simp [outside]

/-- Every text is read as a removal reads it: a code, or one character that begins none, and then
the rest. -/
theorem colour_induction {motive : List Char → Prop} (nil : motive [])
    (code : ∀ code rest, ColourCode code → motive rest → motive (code ++ rest))
    (plain : ∀ c rest, colour.after? (c :: rest) = none → motive rest → motive (c :: rest))
    (text : List Char) : motive text := by
  induction size : text.length using Nat.strongRecOn generalizing text with
  | ind n ih =>
    subst size
    cases found : colour.after? text with
    | some rest =>
      obtain ⟨front, is, rfl⟩ := after?_colour_iff.1 found
      exact code front rest is (ih _ (length_lt_of_after? found) rest rfl)
    | none =>
      cases text with
      | nil => exact nil
      | cons c rest => exact plain c rest found (ih _ (Nat.lt_succ_self _) rest rfl)

theorem remove_code (is : ColourCode code) (rest : List Char) :
    colour.remove (code ++ rest) = colour.remove rest :=
  remove_of_after? (after?_colour_iff.2 ⟨code, is, rfl⟩)

theorem remove_eq_visible (text : List Char) : colour.remove text = visible text := by
  induction text using colour_induction with
  | nil => simp [visible]
  | code code rest is ih =>
    rw [remove_code is, ih, visible_append (not_crossed_code is rest), visible_code is,
      List.nil_append]
  | plain c rest nothing ih =>
    have alone : visible [c] = [c] := by
      refine visible_eq_self_iff.2 ?_
      rintro _ ⟨numbers, -, rfl⟩ part
      have := part.length_le
      simp at this
    rw [remove_cons_of_after? nothing, ih, ← List.singleton_append (l := rest),
      visible_append (not_crossed_of_after? nothing), alone, List.singleton_append]

theorem remove_append (seam : ¬ Crossed first second) :
    colour.remove (first ++ second) = colour.remove first ++ colour.remove second := by
  rw [remove_eq_visible, remove_eq_visible, remove_eq_visible, visible_append seam]

theorem remove_eq_self_iff :
    colour.remove text = text ↔ ∀ code, ColourCode code → ¬ code <:+: text := by
  rw [remove_eq_visible, visible_eq_self_iff]

theorem colourCode_of_mem_codes {style : Style} {numbers : String}
    (member : numbers ∈ style.codes) : ColourCode (Style.escape numbers).toList := by
  have all : ∀ numbers ∈ style.codes, numbers.toList.all fun c => c.isDigit || c == ';' := by
    cases style <;> decide
  exact ⟨numbers.toList, by simpa using all numbers member, by simp [Style.escape]⟩

/-- Paint comes off, and the text under it stays. -/
theorem remove_paint (style : Style) {text : String} (clear : '\x1b' ∉ text.toList)
    (rest : List Char) :
    colour.remove ((style.paint text).toList ++ rest) = text.toList ++ colour.remove rest := by
  have opening (codes : List String)
      (all : ∀ numbers ∈ codes, ColourCode (Style.escape numbers).toList) (rest : List Char) :
      colour.remove ((String.join (codes.map Style.escape)).toList ++ rest) =
        colour.remove rest := by
    induction codes with
    | nil => simp
    | cons numbers codes ih =>
      rw [List.map_cons, String.join_cons, String.toList_append, List.append_assoc,
        remove_code (all numbers (by simp)),
        ih fun other member => all other (List.mem_cons_of_mem numbers member)]
  have reset : ColourCode Style.reset.toList :=
    ⟨['0'], List.forall_mem_singleton.2 (by decide), by decide⟩
  rw [Style.paint, String.toList_append, String.toList_append, List.append_assoc, List.append_assoc,
    Style.opening, opening style.codes fun _ member => colourCode_of_mem_codes member,
    colour.remove_append_of_clear clear, remove_code reset]

/-- An escape, or the start of an escape sequence, that what follows does not make a colour code. -/
inductive Stray : (start rest : List Char) → Prop
  /-- An escape without a bracket. -/
  | alone {rest : List Char} (other : rest.head? ≠ some '[') : Stray ['\x1b'] rest
  /-- A sequence that another escape or the end of the text breaks off. -/
  | cut {numbers rest : List Char} (all : ∀ c ∈ numbers, c.isDigit ∨ c = ';')
      (breaks : ∀ c ∈ rest.head?, c = '\x1b') : Stray ('\x1b' :: '[' :: numbers) rest
  /-- A sequence that ends in another character than colour codes do. -/
  | ended {numbers rest : List Char} {last : Char} (all : ∀ c ∈ numbers, c.isDigit ∨ c = ';')
      (goes_on : ¬ (last.isDigit ∨ last = ';')) (other : last ≠ 'm') (escape : last ≠ '\x1b') :
      Stray ('\x1b' :: '[' :: (numbers ++ [last])) rest

theorem Stray.after? {start : List Char} (stray : Stray start rest) :
    colour.after? (start ++ rest) = none := by
  cases stray with
  | @alone rest other =>
    cases rest with
    | nil => rfl
    | cons d rest => exact after?_of_no_start (fun same => other (by simp [same.2])) rest
  | @cut numbers rest all breaks =>
    have dropped : (numbers ++ rest).dropWhile colour.parameter = rest.dropWhile colour.parameter :=
      List.dropWhile_append_of_pos fun c member => parameter_colour_iff.2 (all c member)
    rw [List.cons_append, List.cons_append, after?_bracket, dropped]
    cases rest with
    | nil => rfl
    | cons c rest =>
      obtain rfl : c = '\x1b' := breaks c rfl
      rfl
  | @ended numbers rest last all goes_on other escape =>
    have dropped : (numbers ++ last :: rest).dropWhile colour.parameter = last :: rest := by
      rw [List.dropWhile_append_of_pos fun c member => parameter_colour_iff.2 (all c member),
        List.dropWhile_cons_of_neg fun goes => goes_on (parameter_colour_iff.1 goes)]
    simp [after?_bracket, dropped, other]

theorem Stray.exists_tail {start : List Char} (stray : Stray start rest) :
    ∃ tail, start = '\x1b' :: tail ∧ '\x1b' ∉ tail := by
  have clear {numbers : List Char} (all : ∀ c ∈ numbers, c.isDigit ∨ c = ';') :
      '\x1b' ∉ numbers := fun member => absurd (all _ member) (by decide)
  cases stray with
  | alone other => exact ⟨[], rfl, by simp⟩
  | cut all breaks => exact ⟨_, rfl, by simp [clear all]⟩
  | ended all goes_on other escape => exact ⟨_, rfl, by simp [clear all, Ne.symm escape]⟩

theorem Stray.remove {start : List Char} (stray : Stray start rest) (before : List Char) :
    colour.remove (before ++ start ++ rest) =
      colour.remove before ++ start ++ colour.remove rest := by
  have nothing := stray.after?
  obtain ⟨tail, rfl, clear⟩ := stray.exists_tail
  rw [List.cons_append] at nothing
  rw [List.append_assoc, List.cons_append, remove_append (not_crossed_escape before _),
    remove_cons_of_after? nothing, colour.remove_append_of_clear clear]
  simp

theorem toList_withoutEscapes (form : EscapeForm) (text : String) :
    (withoutEscapes form text).toList = form.remove text.toList := String.toList_ofList

/-- The filter for plain output takes out the characters inside colour codes and no others. The
codes of a text are apart. Text without codes stays as it is, and so does the start of a sequence
that is no colour code, in the middle of any text. Where no code crosses the seam, the parts of a
text may be filtered one by one. -/
theorem filter_removes_colour_codes :
    (∀ text : String, (withoutEscapes .colour text).toList = visible text.toList) ∧
    (∀ before code after before' code' after' : List Char, ColourCode code → ColourCode code' →
      before ++ code ++ after = before' ++ code' ++ after' →
        before = before' ∧ code = code' ∨ before.length + code.length ≤ before'.length ∨
          before'.length + code'.length ≤ before.length) ∧
    (∀ text : String, (∀ code, ColourCode code → ¬ code <:+: text.toList) →
      withoutEscapes .colour text = text) ∧
    (∀ before start rest : String, Stray start.toList rest.toList →
      withoutEscapes .colour (before ++ start ++ rest) =
        withoutEscapes .colour before ++ start ++ withoutEscapes .colour rest) ∧
    ∀ first second : String, ¬ Crossed first.toList second.toList →
      withoutEscapes .colour (first ++ second) =
        withoutEscapes .colour first ++ withoutEscapes .colour second := by
  refine ⟨fun text => ?_, fun _ _ _ _ _ _ is is' same => eq_or_apart is is' same,
    fun text clear => ?_, fun before start rest stray => ?_, fun first second seam => ?_⟩
  · rw [toList_withoutEscapes, remove_eq_visible]
  · rw [← String.toList_inj, toList_withoutEscapes]
    exact remove_eq_self_iff.2 clear
  · rw [← String.toList_inj]
    simp only [toList_withoutEscapes, String.toList_append]
    exact stray.remove before.toList
  · rw [← String.toList_inj]
    simp only [toList_withoutEscapes, String.toList_append]
    exact remove_append seam

/-- A sequence that another escape breaks off stays, and the code behind it goes. -/
theorem filter_removes_colour_codes_restarted :
    let start := "\x1b[1"
    let rest := "\x1b[0m"
    Stray start.toList rest.toList ∧ ColourCode rest.toList ∧
      withoutEscapes .colour ("a" ++ start ++ rest) = "a" ++ start := by
  intro start rest
  have starts : start.toList = '\x1b' :: '[' :: ['1'] := by decide
  have code : rest.toList = '\x1b' :: '[' :: (['0'] ++ ['m']) := by decide
  have stray : Stray start.toList rest.toList := by
    rw [starts, code]
    exact .cut (List.forall_mem_singleton.2 (by decide)) (by simp)
  obtain ⟨keeps, -, -, stays, -⟩ := filter_removes_colour_codes
  have front : withoutEscapes .colour "a" = "a" := by
    rw [← String.toList_inj, keeps]
    decide
  have gone : withoutEscapes .colour rest = "" := by
    rw [← String.toList_inj, keeps]
    decide
  refine ⟨stray, ⟨['0'], List.forall_mem_singleton.2 (by decide), code⟩, ?_⟩
  rw [stays "a" start rest stray, front, gone, String.append_empty]

end TapeVM.Text
