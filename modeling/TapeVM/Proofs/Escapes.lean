import TapeVM.Text.Escape

/-! Escape sequences in texts that are made of whole lines. No sequence goes on behind a newline,
whatever the characters around it are, so such texts may be filtered piece by piece. -/
namespace TapeVM.Text

namespace EscapeForm

variable {form : EscapeForm}

/-- The sequences of a form stand on one line. -/
structure Inline (form : EscapeForm) : Prop where
  parameter : form.parameter '\n' = false
  intermediate : form.intermediate '\n' = false
  final : form.final '\n' = false

theorem inline_colour : colour.Inline := ⟨by decide, by decide, by decide⟩

theorem inline_control : control.Inline := ⟨by decide, by decide, by decide⟩

theorem dropWhile_append_cons {α : Type} {p : α → Bool} {a : α} (stops : p a = false)
    (before after : List α) :
    (before ++ a :: after).dropWhile p = before.dropWhile p ++ a :: after := by
  induction before with
  | nil => simp [stops]
  | cons b before ih =>
    rw [List.cons_append, List.dropWhile_cons, List.dropWhile_cons, ih]
    split
    · rfl
    · rfl

theorem after?_of_ne {c : Char} (other : c ≠ '\x1b') (rest : List Char) :
    form.after? (c :: rest) = none := by
  rw [after?]
  rintro body starts
  cases starts
  exact other rfl

theorem remove_append_of_clear (form : EscapeForm) {text : List Char} (clear : '\x1b' ∉ text)
    (rest : List Char) :
    form.remove (text ++ rest) = text ++ form.remove rest := by
  induction text with
  | nil => rfl
  | cons c text ih =>
    rw [List.mem_cons, not_or] at clear
    rw [List.cons_append, remove_cons_of_after? (after?_of_ne (Ne.symm clear.1) _), ih clear.2,
      List.cons_append]

theorem exists_of_after? {text rest : List Char} (found : form.after? text = some rest) :
    ∃ code, text = code ++ rest := by
  unfold after? at found
  split at found
  · rename_i body
    split at found
    · rename_i last tail ends
      split at found
      · cases found
        have parameters := List.takeWhile_append_dropWhile (p := form.parameter) (l := body)
        have intermediates := List.takeWhile_append_dropWhile (p := form.intermediate)
          (l := body.dropWhile form.parameter)
        rw [ends] at intermediates
        exact ⟨'\x1b' :: '[' :: (body.takeWhile form.parameter ++
          ((body.dropWhile form.parameter).takeWhile form.intermediate ++ [last])),
          by simp [parameters, intermediates]⟩
      · cases found
    · cases found
  · cases found

theorem mem_of_mem_remove {text : List Char} {c : Char} (kept : c ∈ form.remove text) :
    c ∈ text := by
  induction bound : text.length using Nat.strongRecOn generalizing text with
  | ind n ih =>
    subst bound
    cases found : form.after? text with
    | some next =>
      obtain ⟨code, split⟩ := exists_of_after? found
      rw [remove_of_after? found] at kept
      rw [split]
      exact List.mem_append_right code (ih _ (length_lt_of_after? found) kept rfl)
    | none =>
      cases text with
      | nil => simp at kept
      | cons d text =>
        rw [remove_cons_of_after? found, List.mem_cons] at kept
        rw [List.mem_cons]
        exact kept.imp_right fun behind => ih _ (Nat.lt_succ_self _) behind rfl

theorem after?_of_no_start {c d : Char} (other : ¬ (c = '\x1b' ∧ d = '[')) (body : List Char) :
    form.after? (c :: d :: body) = none := by
  rw [after?]
  rintro rest starts
  cases starts
  exact other ⟨rfl, rfl⟩

theorem after?_append_newline (inline : form.Inline) (line rest : List Char) :
    form.after? (line ++ '\n' :: rest) = (form.after? line).map (· ++ '\n' :: rest) := by
  match line with
  | [] => simp [after?]
  | [c] =>
    rw [List.cons_append, List.nil_append, after?_of_no_start (by simp)]
    simp [after?]
  | c :: d :: body =>
    by_cases start : c = '\x1b' ∧ d = '['
    · obtain ⟨rfl, rfl⟩ := start
      simp only [List.cons_append, after?, dropWhile_append_cons inline.parameter,
        dropWhile_append_cons inline.intermediate]
      cases (body.dropWhile form.parameter).dropWhile form.intermediate with
      | nil => simp [inline.final]
      | cons last tail => by_cases ends : form.final last = true <;> simp [ends]
    · rw [List.cons_append, List.cons_append, after?_of_no_start start, after?_of_no_start start]
      rfl

/-- Lines may be filtered one by one. -/
theorem remove_append_newline (inline : form.Inline) (line rest : List Char) :
    form.remove (line ++ '\n' :: rest) = form.remove line ++ '\n' :: form.remove rest := by
  -- What is left behind a sequence is shorter, but not a tail that the recursion could follow.
  induction bound : line.length using Nat.strongRecOn generalizing line with
  | ind n ih =>
    subst bound
    have behind := after?_append_newline inline line rest
    cases found : form.after? line with
    | some next =>
      rw [found] at behind
      rw [remove_of_after? found, remove_of_after? behind]
      exact ih _ (length_lt_of_after? found) next rfl
    | none =>
      rw [found] at behind
      cases line with
      | nil => rw [List.nil_append, remove_cons_of_after? behind, remove_nil, List.nil_append]
      | cons c line =>
        rw [List.cons_append] at behind ⊢
        rw [remove_cons_of_after? behind, remove_cons_of_after? found,
          ih line.length (Nat.lt_succ_self _) line rfl, List.cons_append]

end EscapeForm

def Whole (text : String) : Prop := text = "" ∨ ∃ body, text = body ++ "\n"

theorem whole_newline (body : String) : Whole (body ++ "\n") := .inr ⟨body, rfl⟩

/-- A line has one newline, and that ends it. -/
def Line (text : String) : Prop := ∃ body, '\n' ∉ body.toList ∧ text = body ++ "\n"

theorem Line.whole {text : String} (line : Line text) : Whole text :=
  .inr (line.imp fun _ => And.right)

section Inline

variable {form : EscapeForm}

theorem withoutEscapes_newline (inline : form.Inline) (line rest : String) :
    withoutEscapes form (line ++ "\n" ++ rest) =
      withoutEscapes form line ++ "\n" ++ withoutEscapes form rest := by
  have split : (line ++ "\n" ++ rest).toList = line.toList ++ '\n' :: rest.toList := by simp
  rw [withoutEscapes, split, form.remove_append_newline inline, String.append_assoc]
  simp [withoutEscapes]

theorem withoutEscapes_append (inline : form.Inline) {first : String} (whole : Whole first)
    (second : String) :
    withoutEscapes form (first ++ second) =
      withoutEscapes form first ++ withoutEscapes form second := by
  have empty : withoutEscapes form "" = "" := by simp [withoutEscapes]
  rcases whole with rfl | ⟨body, rfl⟩
  · rw [empty, String.empty_append, String.empty_append]
  · have alone := withoutEscapes_newline inline body ""
    rw [empty, String.append_empty, String.append_empty] at alone
    rw [withoutEscapes_newline inline, alone]

/-- A character of a filtered text is one of a filtered line. -/
theorem mem_withoutEscapes_lines (inline : form.Inline) {front line behind : String} {c : Char} :
    c ∈ (withoutEscapes form (front ++ "\n" ++ (line ++ "\n" ++ behind))).toList ↔
      c ∈ form.remove front.toList ∨ c ∈ form.remove line.toList ∨
        c ∈ form.remove behind.toList ∨ c = '\n' := by
  rw [withoutEscapes_newline inline, withoutEscapes_newline inline]
  simp only [withoutEscapes, String.toList_append, String.toList_ofList, List.mem_append]
  have feed : c ∈ "\n".toList ↔ c = '\n' := by simp
  rw [feed]
  grind

theorem withoutEscapes_join (inline : form.Inline) {lines : List String}
    (whole : ∀ line ∈ lines, Whole line) :
    withoutEscapes form (String.join lines) = String.join (lines.map (withoutEscapes form)) := by
  induction lines with
  | nil => simp [withoutEscapes]
  | cons line lines ih =>
    rw [List.map_cons, String.join_cons, String.join_cons,
      withoutEscapes_append inline (whole line (by simp)),
      ih fun other member => whole other (List.mem_cons_of_mem line member)]

theorem whole_withoutEscapes (inline : form.Inline) (body : String) :
    Whole (withoutEscapes form (body ++ "\n")) := by
  have filtered := withoutEscapes_newline inline body ""
  rw [String.append_empty] at filtered
  rw [filtered]
  simpa [withoutEscapes] using whole_newline (withoutEscapes form body)

end Inline
end TapeVM.Text
