import Mathlib.Data.List.Basic
import TapeVM.Instruction
import TapeVM.Token

/-! Nesting of brackets. Symbols, tokens and instructions are alike here: each opens, closes or does
neither, and a list of them is seen as the list of its brackets with gaps between them. Matching is
the usual one: two brackets match if what stands between them is balanced. -/
namespace TapeVM

inductive Bracket where
  | opening | closing
  deriving DecidableEq, Repr

def Symbol.bracket? : Symbol → Option Bracket
  | loopStart => some .opening
  | loopEnd => some .closing
  | increment | decrement | moveLeft | moveRight | input | output => none

def Terminal.bracket? : Terminal → Option Bracket
  | known symbol => symbol.bracket?
  | foreign _ => none

def Opcode.bracket? : Opcode → Option Bracket
  | jumpIfZero => some .opening
  | jumpIfNonZero => some .closing
  | add | sub | shiftLeft | shiftRight | input | output | unassigned _ => none

@[simp] theorem Opcode.bracket?_ofSymbol (s : Symbol) :
    (Opcode.ofSymbol s).bracket? = s.bracket? := by
  cases s <;> rfl

def Source.brackets (source : Source) : List (Option Bracket) :=
  source.symbols.map Symbol.bracket?

def Program.brackets (program : Program) : List (Option Bracket) :=
  program.toList.map fun i => i.op.bracket?

namespace Nesting

variable {l a b : List (Option Bracket)} {i j : Nat}

/-- How many more brackets open than close. -/
def depth (l : List (Option Bracket)) : Int :=
  l.count (some .opening) - l.count (some .closing)

/-- Every bracket that opens is closed later, and no bracket closes too early. -/
structure Balanced (l : List (Option Bracket)) : Prop where
  level : depth l = 0
  above : ∀ k, 0 ≤ depth (l.take k)

/-- The brackets at two places enclose a balanced stretch. -/
def Matched (l : List (Option Bracket)) (i j : Nat) : Prop :=
  ∃ before inside after, l = before ++ some .opening :: (inside ++ some .closing :: after) ∧
    Balanced inside ∧ i = before.length ∧ j = before.length + 1 + inside.length

def places (l : List (Option Bracket)) : List Nat := l.findIdxs Option.isSome

def marks (l : List (Option Bracket)) : List (Option Bracket) := l.filter Option.isSome

@[simp] theorem depth_nil : depth [] = 0 := rfl

@[simp] theorem depth_none_cons : depth (none :: l) = depth l := by simp [depth]

@[simp] theorem depth_opening_cons : depth (some .opening :: l) = depth l + 1 := by
  simp [depth]; omega

@[simp] theorem depth_closing_cons : depth (some .closing :: l) = depth l - 1 := by
  simp [depth]; omega

@[simp] theorem depth_append : depth (a ++ b) = depth a + depth b := by
  simp [depth]; omega

@[simp] theorem depth_marks : depth (marks l) = depth l := by
  simp [depth, marks, List.count_filter]

theorem balanced_iff :
    Balanced l ↔ depth l = 0 ∧ ∀ a b, l = a ++ b → 0 ≤ depth a := by
  constructor
  · intro balanced
    refine ⟨balanced.level, ?_⟩
    rintro a b rfl
    simpa using balanced.above a.length
  · rintro ⟨level, above⟩
    exact ⟨level, fun k => above _ _ (List.take_append_drop k l).symm⟩

theorem balanced_nil : Balanced [] := ⟨rfl, by simp⟩

theorem Balanced.append (first : Balanced a) (second : Balanced b) : Balanced (a ++ b) := by
  refine ⟨by simp [first.level, second.level], fun k => ?_⟩
  have := first.above k
  have := second.above (k - a.length)
  simp only [List.take_append, depth_append]
  omega

theorem balanced_none_cons : Balanced (none :: l) ↔ Balanced l := by
  constructor
  · rintro ⟨level, above⟩
    exact ⟨by simpa using level, fun k => by simpa using above (k + 1)⟩
  · rintro ⟨level, above⟩
    refine ⟨by simpa using level, fun k => ?_⟩
    cases k with
    | zero => simp
    | succ k => simpa using above k

theorem Balanced.enclose (inside : Balanced a) :
    Balanced (some .opening :: (a ++ [some .closing])) := by
  refine ⟨by simp [inside.level], fun k => ?_⟩
  cases k with
  | zero => simp
  | succ k =>
    have := inside.above k
    simp only [List.take_succ_cons, List.take_append, depth_opening_cons, depth_append]
    rcases k - a.length with _ | rest
    · simp; omega
    · simp; omega

/-- A balanced stretch that was cut off never goes below its start again. -/
theorem Balanced.drop_le (balanced : Balanced l) (k : Nat) : depth (l.drop k) ≤ 0 := by
  have split : depth (l.take k) + depth (l.drop k) = depth l := by
    rw [← depth_append, List.take_append_drop]
  have := balanced.above k
  have := balanced.level
  omega

theorem Matched.lt (matched : Matched l i j) : i < j := by
  obtain ⟨before, inside, after, -, -, rfl, rfl⟩ := matched
  omega

theorem Matched.opening (matched : Matched l i j) : l[i]? = some (some .opening) := by
  obtain ⟨before, inside, after, rfl, -, rfl, rfl⟩ := matched
  simp

theorem Matched.closing (matched : Matched l i j) : l[j]? = some (some .closing) := by
  obtain ⟨before, inside, after, rfl, -, rfl, rfl⟩ := matched
  rw [List.getElem?_append_right (by omega),
    show before.length + 1 + inside.length - before.length = inside.length + 1 by omega]
  simp

theorem Matched.lt_length (matched : Matched l i j) : j < l.length :=
  (List.getElem?_eq_some_iff.1 matched.closing).1

theorem Matched.depth_after (matched : Matched l i j) :
    depth (l.take (j + 1)) = depth (l.take i) := by
  obtain ⟨before, inside, after, rfl, balanced, rfl, rfl⟩ := matched
  rw [show before.length + 1 + inside.length + 1 = before.length + (inside.length + 1 + 1) by omega]
  simp [List.take_append, List.take_of_length_le, balanced.level]

theorem Matched.depth_within (matched : Matched l i j) {k : Nat} (above : i < k) (le : k ≤ j) :
    depth (l.take i) < depth (l.take k) := by
  obtain ⟨before, inside, after, rfl, balanced, rfl, rfl⟩ := matched
  obtain ⟨k, rfl⟩ : ∃ n, k = before.length + (n + 1) := ⟨k - before.length - 1, by omega⟩
  have inner : k - inside.length = 0 := by omega
  have := balanced.above k
  simp [List.take_append, List.take_of_length_le, inner]
  omega

theorem Matched.right_unique {j' : Nat} (first : Matched l i j) (second : Matched l i j') :
    j = j' := by
  rcases Nat.lt_trichotomy j j' with less | same | more
  · have := first.depth_after
    have := second.depth_within (k := j + 1) (by have := first.lt; omega) (by omega)
    omega
  · exact same
  · have := second.depth_after
    have := first.depth_within (k := j' + 1) (by have := second.lt; omega) (by omega)
    omega

theorem Matched.not_crossing {i' j' : Nat} (first : Matched l i j) (second : Matched l i' j')
    (start : i < i') (inside : i' ≤ j) : j' < j := by
  have distinct : i' ≠ j := by
    rintro rfl
    have open' := second.opening
    rw [first.closing] at open'
    cases open'
  by_contra notBefore
  have := first.depth_within start inside
  have := first.depth_after
  have differ : j ≠ j' := by
    rintro rfl
    have := second.depth_after
    omega
  have := second.depth_within (k := j + 1) (by omega) (by omega)
  omega

theorem Matched.left_unique {i' : Nat} (first : Matched l i j) (second : Matched l i' j) :
    i = i' := by
  rcases Nat.lt_trichotomy i i' with less | same | more
  · have := first.not_crossing second less (Nat.le_of_lt second.lt)
    omega
  · exact same
  · have := second.not_crossing first more (Nat.le_of_lt first.lt)
    omega

theorem Matched.disjoint_or_nested {i' j' : Nat} (first : Matched l i j)
    (second : Matched l i' j') :
    (j < i' ∨ j' < i) ∨ (i ≤ i' ∧ j' ≤ j) ∨ (i' ≤ i ∧ j ≤ j') := by
  rcases Nat.lt_trichotomy i i' with less | rfl | more
  · by_cases apart : j < i'
    · exact .inl (.inl apart)
    · have := first.not_crossing second less (by omega)
      exact .inr (.inl ⟨Nat.le_of_lt less, Nat.le_of_lt this⟩)
  · have := first.right_unique second
    exact .inr (.inl ⟨Nat.le_refl _, Nat.le_of_eq this.symm⟩)
  · by_cases apart : j' < i
    · exact .inl (.inr apart)
    · have := second.not_crossing first more (by omega)
      exact .inr (.inr ⟨Nat.le_of_lt more, Nat.le_of_lt this⟩)

theorem depth_take_add_one (l : List (Option Bracket)) (k : Nat) :
    depth (l.take (k + 1)) = depth (l.take k) + depth l[k]?.toList := by
  rw [List.take_add_one, depth_append]

theorem above_of_closed (closed : ∀ j, l[j]? = some (some .closing) → ∃ i, Matched l i j)
    (k : Nat) : 0 ≤ depth (l.take k) := by
  induction k using Nat.strongRecOn with
  | ind k ih =>
    cases k with
    | zero => simp
    | succ k =>
      have before := ih k (Nat.lt_succ_self k)
      rw [depth_take_add_one]
      rcases here : l[k]? with _ | _ | _ | _
      · simpa using before
      · simpa using before
      · simp
        omega
      · obtain ⟨i, matched⟩ := closed k here
        have back := matched.depth_after
        have earlier := ih i (Nat.lt_succ_of_lt matched.lt)
        rwa [← here, ← depth_take_add_one, back]

theorem le_of_opened (opened : ∀ i, l[i]? = some (some .opening) → ∃ j, Matched l i j)
    (rest k : Nat) (split : k + rest = l.length) : depth l ≤ depth (l.take k) := by
  induction rest using Nat.strongRecOn generalizing k with
  | ind rest ih =>
    cases rest with
    | zero => simp [List.take_of_length_le, ← split]
    | succ rest =>
      have after := ih rest (Nat.lt_succ_self rest) (k + 1) (by omega)
      rw [depth_take_add_one] at after
      rcases here : l[k]? with _ | _ | _ | _
      · simpa [here] using after
      · simpa [here] using after
      · obtain ⟨j, matched⟩ := opened k here
        have back := matched.depth_after
        have := matched.lt
        have := matched.lt_length
        rw [← back]
        exact ih (l.length - (j + 1)) (by omega) (j + 1) (by omega)
      · simp [here] at after
        omega

theorem balanced_of_matched (opened : ∀ i, l[i]? = some (some .opening) → ∃ j, Matched l i j)
    (closed : ∀ j, l[j]? = some (some .closing) → ∃ i, Matched l i j) : Balanced l := by
  have above := above_of_closed closed
  have below := le_of_opened opened l.length 0 (Nat.zero_add _)
  have total := above l.length
  rw [List.take_length] at total
  exact ⟨Int.le_antisymm (by simpa using below) total, above⟩

theorem Matched.cons (x : Option Bracket) (matched : Matched l i j) :
    Matched (x :: l) (i + 1) (j + 1) := by
  obtain ⟨before, inside, after, rfl, balanced, rfl, rfl⟩ := matched
  exact ⟨x :: before, inside, after, rfl, balanced, rfl, by simp; omega⟩

theorem Matched.append_left (c : List (Option Bracket)) (matched : Matched l i j) :
    Matched (c ++ l) (c.length + i) (c.length + j) := by
  obtain ⟨before, inside, after, rfl, balanced, rfl, rfl⟩ := matched
  exact ⟨c ++ before, inside, after, by simp, balanced, by simp, by simp; omega⟩

theorem Matched.append_right (c : List (Option Bracket)) (matched : Matched l i j) :
    Matched (l ++ c) i j := by
  obtain ⟨before, inside, after, rfl, balanced, rfl, rfl⟩ := matched
  exact ⟨before, inside, after ++ c, by simp, balanced, rfl, rfl⟩

theorem Matched.of_append {c : List (Option Bracket)} (matched : Matched (l ++ c) i j)
    (inside : j < l.length) : Matched l i j := by
  obtain ⟨before, inner, after, split, balanced, rfl, rfl⟩ := matched
  obtain ⟨rest, size⟩ := Nat.exists_eq_add_of_lt inside
  refine ⟨before, inner, after.take rest, ?_, balanced, rfl, rfl⟩
  have size : l.length = before.length + (inner.length + (rest + 1) + 1) := by omega
  calc l = (l ++ c).take l.length := List.take_left.symm
    _ = (before ++ some .opening :: (inner ++ some .closing :: after)).take
          (before.length + (inner.length + (rest + 1) + 1)) := by rw [split, size]
    _ = before ++ some .opening :: (inner ++ some .closing :: after.take rest) := by
      simp [List.take_append, List.take_of_length_le]

theorem balanced_marks : Balanced (marks l) ↔ Balanced l := by
  constructor
  · intro balanced
    rw [balanced_iff] at balanced ⊢
    refine ⟨by simpa using balanced.1, ?_⟩
    rintro a b rfl
    rw [← depth_marks]
    exact balanced.2 (marks a) (marks b) (by simp [marks])
  · intro balanced
    rw [balanced_iff] at balanced ⊢
    refine ⟨by simpa using balanced.1, ?_⟩
    intro a b split
    obtain ⟨a, b, rfl, rfl, rfl⟩ := List.filter_eq_append_iff.1 split
    exact depth_marks (l := a) ▸ balanced.2 a b rfl

theorem exists_split_of_marks {c d : List (Option Bracket)} {bracket : Bracket}
    (split : marks l = c ++ some bracket :: d) :
    ∃ before after, l = before ++ some bracket :: after ∧ marks before = c ∧ marks after = d := by
  obtain ⟨before, tail, rfl, rfl, tailMarks⟩ := List.filter_eq_append_iff.1 split
  obtain ⟨gap, after, rfl, silent, -, rfl⟩ := List.filter_eq_cons_iff.1 tailMarks
  have empty : gap.filter Option.isSome = [] := List.filter_eq_nil_iff.2 silent
  exact ⟨before ++ gap, after, by simp, by simp [marks, empty], rfl⟩

theorem getElem?_places (a b : List (Option Bracket)) (bracket : Bracket) :
    (places (a ++ some bracket :: b))[(marks a).length]? = some a.length := by
  have count : (a.findIdxs Option.isSome).length = (marks a).length := by
    simp [marks, List.countP_eq_length_filter]
  simp [places, ← count]

/-- Lists with the same brackets have the same matching, bracket by bracket. -/
theorem Matched.transfer {l' : List (Option Bracket)} (same : marks l = marks l')
    (matched : Matched l i j) :
    ∃ k m i' j' : Nat, (places l)[k]? = some i ∧ (places l)[m]? = some j ∧
      (places l')[k]? = some i' ∧ (places l')[m]? = some j' ∧ Matched l' i' j' := by
  obtain ⟨before, inside, after, rfl, balanced, rfl, rfl⟩ := matched
  have split : marks l' =
      marks before ++ some .opening :: (marks inside ++ some .closing :: marks after) := by
    rw [← same]
    simp [marks]
  obtain ⟨before', tail, rfl, beforeMarks, tailMarks⟩ := exists_split_of_marks split
  obtain ⟨inside', after', rfl, insideMarks, -⟩ := exists_split_of_marks tailMarks
  have openings := getElem?_places before (inside ++ some .closing :: after) .opening
  have openings' := getElem?_places before' (inside' ++ some .closing :: after') .opening
  have closings := getElem?_places (before ++ some .opening :: inside) after .closing
  have closings' := getElem?_places (before' ++ some .opening :: inside') after' .closing
  have rank : (marks (before' ++ some .opening :: inside')).length =
      (marks (before ++ some .opening :: inside)).length := by
    simp only [marks] at beforeMarks insideMarks
    simp [marks, beforeMarks, insideMarks]
  rw [beforeMarks] at openings'
  rw [rank] at closings'
  have place (a b : List (Option Bracket)) :
      (a ++ some Bracket.opening :: b).length = a.length + 1 + b.length := by
    simp; omega
  rw [place] at closings closings'
  simp only [List.append_assoc, List.cons_append] at closings closings'
  have inner : Balanced inside' := by
    rw [← balanced_marks, insideMarks]
    exact balanced_marks.2 balanced
  exact ⟨_, _, _, _, openings, closings, openings', closings',
    before', inside', after', rfl, inner, rfl, rfl⟩

end Nesting
end TapeVM
