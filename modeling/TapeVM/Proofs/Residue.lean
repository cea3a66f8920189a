import TapeVM.Proofs.Colours

/-! What removal leaves. Removal is one pass, so a code whose characters other codes keep apart is
put together by it and stays. Such codes are all that can stand in a filtered text. -/
namespace TapeVM.Text

open EscapeForm

variable {text code plain spread front rest : List Char}

/-- A text with codes put between its characters, or in front of them, but none behind the last. -/
inductive Spread : (plain spread : List Char) → Prop
  | last (c : Char) : Spread [c] [c]
  | keep (c : Char) {plain spread : List Char} (more : Spread plain spread) :
      Spread (c :: plain) (c :: spread)
  | skip {code plain spread : List Char} (is : ColourCode code) (more : Spread plain spread) :
      Spread plain (code ++ spread)

/-- A text holds the characters of a code, with at least one other code between them. -/
def Interrupted (text : List Char) : Prop :=
  ∃ plain spread, ColourCode ('\x1b' :: plain) ∧ Spread plain spread ∧ spread ≠ plain ∧
    '\x1b' :: spread <:+: text

namespace Spread

theorem remove (between : Spread plain spread) (clear : '\x1b' ∉ plain) (rest : List Char) :
    colour.remove (spread ++ rest) = plain ++ colour.remove rest := by
  induction between with
  | last c => exact colour.remove_append_of_clear clear rest
  | keep c _ ih =>
    rw [List.mem_cons, not_or] at clear
    rw [List.cons_append, remove_cons_of_after? (after?_of_ne (Ne.symm clear.1) _), ih clear.2,
      List.cons_append]
  | skip is _ ih => rw [List.append_assoc, remove_code is, ih clear]

/-- Codes that are put into a text keep its last character from those in front. -/
theorem exists_escape (between : Spread plain spread) (apart : spread ≠ plain) :
    ∃ front back more, spread = front ++ '\x1b' :: more ∧ plain = front ++ back ∧ back ≠ [] := by
  have nonempty {plain spread : List Char} (between : Spread plain spread) : plain ≠ [] := by
    induction between with
    | last c => simp
    | keep c => simp
    | skip _ _ ih => exact ih
  induction between with
  | last c => exact absurd rfl apart
  | @keep c plain spread _ ih =>
    obtain ⟨front, back, more, rfl, rfl, behind⟩ := ih fun same => apart (congrArg (c :: ·) same)
    exact ⟨c :: front, back, more, rfl, rfl, behind⟩
  | @skip code plain spread is between =>
    obtain ⟨tail, rfl, -⟩ := is.exists_tail
    exact ⟨[], plain, tail ++ spread, rfl, rfl, nonempty between⟩

/-- With codes between its characters a code is not found where it begins. -/
theorem after?_eq_none (between : Spread plain spread) (is : ColourCode ('\x1b' :: plain))
    (apart : spread ≠ plain) (rest : List Char) :
    colour.after? ('\x1b' :: (spread ++ rest)) = none := by
  obtain ⟨front, back, more, rfl, rfl, behind⟩ := between.exists_escape apart
  rw [after?_colour_eq_none_iff]
  rintro code found ⟨after, split⟩
  have reaches : code ++ after = ('\x1b' :: front) ++ '\x1b' :: (more ++ rest) := by
    rw [split]
    simp
  have stops := found.length_le reaches (by simp)
  -- A code that stops before the first gap is the beginning of the whole one, so it is the whole.
  obtain ⟨short, same⟩ : ∃ short, code ++ short = '\x1b' :: (front ++ back) ++ [] := by
    obtain ⟨short, same⟩ := List.prefix_of_prefix_length_le ⟨after, reaches⟩
      (List.prefix_append _ _) stops
    exact ⟨short ++ back, by rw [← List.append_assoc, same]; simp⟩
  obtain ⟨whole, -⟩ := found.append_inj is same
  simp only [whole, List.length_cons, List.length_append] at stops
  exact behind (List.length_eq_zero_iff.1 (by omega))

end Spread

/-- What is left in front came from text with codes in it. -/
theorem exists_spread (left : colour.remove text = front ++ rest) (nonempty : front ≠ []) :
    ∃ spread after, text = spread ++ after ∧ Spread front spread := by
  induction text using colour_induction generalizing front with
  | nil =>
    rw [remove_nil] at left
    exact absurd (List.append_eq_nil_iff.1 left.symm).1 nonempty
  | code code text is ih =>
    rw [remove_code is] at left
    obtain ⟨spread, after, rfl, between⟩ := ih left nonempty
    exact ⟨code ++ spread, after, by rw [List.append_assoc], .skip is between⟩
  | plain c text nothing ih =>
    obtain ⟨d, front, rfl⟩ := List.exists_cons_of_ne_nil nonempty
    rw [remove_cons_of_after? nothing, List.cons_append, List.cons.injEq] at left
    obtain ⟨rfl, left⟩ := left
    by_cases alone : front = []
    · exact ⟨[c], text, rfl, alone ▸ .last c⟩
    · obtain ⟨spread, after, rfl, between⟩ := ih left alone
      exact ⟨c :: spread, after, rfl, .keep c between⟩

theorem Interrupted.mono {more : List Char} (holds : Interrupted text) (part : text <:+: more) :
    Interrupted more := by
  obtain ⟨plain, spread, is, between, apart, inside⟩ := holds
  exact ⟨plain, spread, is, between, apart, inside.trans part⟩

theorem interrupted_of_left (is : ColourCode code) (left : code <:+: colour.remove text) :
    Interrupted text := by
  induction text using colour_induction with
  | nil =>
    obtain ⟨tail, rfl, -⟩ := is.exists_tail
    simp at left
  | code gone text is' ih =>
    rw [remove_code is'] at left
    exact (ih left).mono (List.suffix_append gone text).isInfix
  | plain c text nothing ih =>
    rw [remove_cons_of_after? nothing, List.infix_cons_iff] at left
    rcases left with ⟨rest, first⟩ | later
    · obtain ⟨plain, rfl, -⟩ := is.exists_tail
      rw [List.cons_append, List.cons.injEq] at first
      obtain ⟨rfl, left⟩ := first
      have nonempty : plain ≠ [] := by
        rintro rfl
        obtain ⟨numbers, -, same⟩ := is
        simp at same
      obtain ⟨spread, after, rfl, between⟩ := exists_spread left.symm nonempty
      refine ⟨plain, spread, is, between, ?_, (List.prefix_append ('\x1b' :: spread) after).isInfix⟩
      rintro rfl
      exact after?_colour_eq_none_iff.1 nothing _ is (List.prefix_append _ after)
    · exact (ih later).mono (List.suffix_cons c text).isInfix

theorem Interrupted.exists_left (holds : Interrupted text) :
    ∃ code, ColourCode code ∧ code <:+: colour.remove text := by
  obtain ⟨plain, spread, is, between, apart, before, after, rfl⟩ := holds
  refine ⟨_, is, colour.remove before, colour.remove after, ?_⟩
  have clear : '\x1b' ∉ plain := by
    obtain ⟨tail, same, clear⟩ := is.exists_tail
    rwa [(List.cons.inj same).2]
  rw [List.append_assoc, List.append_assoc, List.cons_append, List.cons_append,
    remove_append (not_crossed_escape before _),
    remove_cons_of_after? (between.after?_eq_none is apart after), between.remove clear]

/-- A filtered text holds a colour code, and filtering it again changes it, exactly if the text had
one that other codes interrupted. -/
theorem filtered_text_holds_code_iff (text : String) :
    ((∃ code, ColourCode code ∧ code <:+: (withoutEscapes .colour text).toList) ↔
      Interrupted text.toList) ∧
    (withoutEscapes .colour (withoutEscapes .colour text) ≠ withoutEscapes .colour text ↔
      Interrupted text.toList) := by
  have left_iff : (∃ code, ColourCode code ∧ code <:+: (withoutEscapes .colour text).toList) ↔
      Interrupted text.toList := by
    rw [toList_withoutEscapes]
    exact ⟨fun ⟨_, is, left⟩ => interrupted_of_left is left, fun holds => holds.exists_left⟩
  refine ⟨left_iff, ?_⟩
  rw [← left_iff, ne_eq, ← String.toList_inj, toList_withoutEscapes, remove_eq_self_iff]
  simp only [not_forall, not_not, exists_prop]

/-- An escape and a bracket that a code keeps apart make up another code when it is gone. -/
theorem filtering_may_complete_a_code :
    let text := "\x1b\x1b[0m[0m"
    withoutEscapes .colour text = "\x1b[0m" ∧ ColourCode (withoutEscapes .colour text).toList ∧
      withoutEscapes .colour (withoutEscapes .colour text) = "" := by
  intro text
  have once : withoutEscapes .colour text = "\x1b[0m" := by
    rw [withoutEscapes, remove_eq_visible]
    decide
  have twice : withoutEscapes .colour "\x1b[0m" = "" := by
    rw [withoutEscapes, remove_eq_visible]
    decide
  refine ⟨once, ?_, by rw [once, twice]⟩
  rw [once]
  exact ⟨['0'], List.forall_mem_singleton.2 (by decide), by decide⟩

end TapeVM.Text
