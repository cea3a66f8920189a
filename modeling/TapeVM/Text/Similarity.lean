/-! How alike two words are. The longest block that both have in common is matched, then what stands
before it in both, and what stands behind it in both, in the same way. The more of their characters
are matched, the more alike the words are. -/
namespace TapeVM.Text

/-- How far two words agree from their beginnings on. -/
def agreement : List Char → List Char → Nat
  | x :: xs, y :: ys => if x = y then agreement xs ys + 1 else 0
  | _, _ => 0

/-- A block that two words have in common: where it starts in each, and how long it is. -/
structure Block where
  left : Nat := 0
  right : Nat := 0
  length : Nat := 0
  deriving DecidableEq, Repr

/-- The longest block that starts the first word. Of several, it is the one that comes first in the
second word. -/
def leadingBlock (word : List Char) : List Char → Block
  | [] => {}
  | y :: rest =>
    let later := leadingBlock word rest
    let here := agreement word (y :: rest)
    if here < later.length then { later with right := later.right + 1 } else { length := here }

/-- The longest block of two words. Of several, it is the one that comes first in the first word,
and then in the second. -/
def longestBlock : List Char → List Char → Block
  | [], _ => {}
  | x :: rest, other =>
    let later := longestBlock rest other
    let here := leadingBlock (x :: rest) other
    if here.length < later.length then { later with left := later.left + 1 } else here

theorem agreement_le (xs ys : List Char) : agreement xs ys ≤ xs.length := by
  fun_induction agreement xs ys <;> simp_all

theorem leadingBlock_length_le (word other : List Char) :
    (leadingBlock word other).length ≤ word.length := by
  induction other with
  | nil => simp [leadingBlock]
  | cons y rest ih =>
    unfold leadingBlock
    dsimp only
    split
    · exact ih
    · exact agreement_le _ _

theorem leadingBlock_left (word other : List Char) : (leadingBlock word other).left = 0 := by
  induction other with
  | nil => rfl
  | cons y rest ih =>
    unfold leadingBlock
    dsimp only
    split
    · exact ih
    · rfl

theorem longestBlock_inside (word other : List Char) :
    (longestBlock word other).left + (longestBlock word other).length ≤ word.length := by
  induction word with
  | nil => simp [longestBlock]
  | cons x rest ih =>
    unfold longestBlock
    dsimp only
    split
    · simp only [List.length_cons]
      omega
    · rw [leadingBlock_left, Nat.zero_add]
      exact leadingBlock_length_le _ _

def matched (word other : List Char) : Nat :=
  let block := longestBlock word other
  if _h : block.length = 0 then 0
  else
    matched (word.take block.left) (other.take block.right) + block.length +
      matched (word.drop (block.left + block.length)) (other.drop (block.right + block.length))
termination_by word.length
decreasing_by
  all_goals
    have inside := longestBlock_inside word other
    have : (longestBlock word other).length ≠ 0 := _h
    simp only [List.length_take, List.length_drop]
    omega

/-- Words are alike if at least three fifths of all their characters are matched. -/
def areAlike (word other : List Char) : Bool :=
  3 * (word.length + other.length) ≤ 10 * matched word other

/-- The first word is more like the model than the second. Of two words that are equally like it,
the one that is later in the alphabet is preferred. -/
def isCloser (model first second : String) : Bool :=
  let weight (word other : String) :=
    matched word.toList model.toList * (other.length + model.length)
  weight second first < weight first second ||
    weight second first == weight first second && second < first

/-- At most three of some words, those most like a model, in the order in which the words stand. -/
def alikeAmong (words : List String) (model : String) : List String :=
  let alike := words.filter fun word => areAlike word.toList model.toList
  let closest := (alike.mergeSort (fun first second => !isCloser model second first)).take 3
  alike.filter (· ∈ closest)

end TapeVM.Text
