/-! Escape sequences and their removal. A sequence is an escape character, a bracket, parameter
characters, intermediate characters and one final character; a form says which characters may
stand where. Removal is one pass from left to right: what it joins is not looked at again. -/
namespace TapeVM.Text

structure EscapeForm where
  parameter : Char → Bool
  intermediate : Char → Bool
  final : Char → Bool

namespace EscapeForm

/-- Colour codes: digits and semicolons, ended by `m`. -/
def colour : EscapeForm where
  parameter c := c.isDigit || c == ';'
  intermediate _ := false
  final c := c == 'm'

/-- Control sequences of any kind, by the character ranges that standard terminals use. -/
def control : EscapeForm where
  parameter c := '0' ≤ c && c ≤ '?'
  intermediate c := ' ' ≤ c && c ≤ '/'
  final c := '@' ≤ c && c ≤ '~'

/-- What follows the escape sequence that a text starts with, if it starts with one. -/
def after? (form : EscapeForm) : List Char → Option (List Char)
  | '\x1b' :: '[' :: body =>
    match (body.dropWhile form.parameter).dropWhile form.intermediate with
    | last :: rest => if form.final last then some rest else none
    | [] => none
  | _ => none

theorem length_lt_of_after? {form : EscapeForm} {text rest : List Char}
    (h : form.after? text = some rest) : rest.length < text.length := by
  unfold after? at h
  split at h
  · rename_i body
    split at h
    · rename_i last tail htail
      split at h
      · cases h
        have := (body.dropWhile_sublist form.parameter).length_le
        have := ((body.dropWhile form.parameter).dropWhile_sublist form.intermediate).length_le
        simp only [htail, List.length_cons] at *
        omega
      · cases h
    · cases h
  · cases h

/-- Removal under way: `kept` holds, in reverse, what has been kept so far. -/
def removeOnto (form : EscapeForm) (kept : List Char) : List Char → List Char
  | [] => kept.reverse
  | c :: rest =>
    match _h : form.after? (c :: rest) with
    | some next => removeOnto form kept next
    | none => removeOnto form (c :: kept) rest
termination_by text => text.length
decreasing_by
  · exact length_lt_of_after? _h
  · simp

def remove (form : EscapeForm) (text : List Char) : List Char := removeOnto form [] text

theorem removeOnto_eq (form : EscapeForm) (kept text : List Char) :
    form.removeOnto kept text = kept.reverse ++ form.remove text := by
  suffices h : ∀ n, ∀ text : List Char, text.length ≤ n → ∀ kept,
      form.removeOnto kept text = kept.reverse ++ form.removeOnto [] text from
    h _ text (Nat.le_refl _) kept
  intro n
  induction n with
  | zero =>
    intro text hn kept
    obtain rfl := List.length_eq_zero_iff.1 (Nat.le_zero.1 hn)
    simp [removeOnto]
  | succ n ih =>
    intro text hn kept
    cases text with
    | nil => simp [removeOnto]
    | cons c rest =>
      unfold removeOnto
      split
      · rename_i next h
        have := length_lt_of_after? h
        exact ih next (by simp only [List.length_cons] at *; omega) kept
      · have shorter : rest.length ≤ n := by simpa using hn
        rw [ih rest shorter (c :: kept), ih rest shorter [c]]
        simp

@[simp] theorem remove_nil (form : EscapeForm) : form.remove [] = [] := by
  simp [remove, removeOnto]

/-- An escape sequence at the start goes, and removal continues behind it. -/
theorem remove_of_after? {form : EscapeForm} {text rest : List Char}
    (h : form.after? text = some rest) : form.remove text = form.remove rest := by
  cases text with
  | nil => simp [after?] at h
  | cons c tail =>
    rw [remove, removeOnto]
    split
    · rename_i next hnext
      obtain rfl : next = rest := by simpa [hnext] using h
      rfl
    · rename_i hnext
      simp [hnext] at h

theorem remove_cons_of_after? {form : EscapeForm} {c : Char} {rest : List Char}
    (h : form.after? (c :: rest) = none) : form.remove (c :: rest) = c :: form.remove rest := by
  rw [remove, removeOnto]
  split
  · rename_i next hnext
    simp [h] at hnext
  · simpa using form.removeOnto_eq [c] rest

end EscapeForm

def withoutEscapes (form : EscapeForm) (text : String) : String :=
  String.ofList (form.remove text.toList)

end TapeVM.Text
