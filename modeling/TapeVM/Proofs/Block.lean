import TapeVM.Proofs.Stretch

/-! Blocks: the bracket trees of symbol lists. A block is a row of actions and loops, and the body
of a loop is a block again. Every balanced list of symbols spells exactly one block. In a folded
block a stretch of equal actions is one action with a count. -/
namespace TapeVM

/-- What a symbol that is no bracket asks for. -/
inductive Action where
  | increment | decrement | moveLeft | moveRight | input | output
  deriving DecidableEq, Repr

def Action.symbol : Action → Symbol
  | increment => .increment
  | decrement => .decrement
  | moveLeft => .moveLeft
  | moveRight => .moveRight
  | input => .input
  | output => .output

def Bracket.symbol : Bracket → Symbol
  | opening => .loopStart
  | closing => .loopEnd

def Symbol.kind : Symbol → Action ⊕ Bracket
  | increment => .inl .increment
  | decrement => .inl .decrement
  | moveLeft => .inl .moveLeft
  | moveRight => .inl .moveRight
  | loopStart => .inr .opening
  | loopEnd => .inr .closing
  | input => .inl .input
  | output => .inl .output

@[simp] theorem Action.kind_symbol (a : Action) : a.symbol.kind = .inl a := by cases a <;> rfl

@[simp] theorem Bracket.kind_symbol (b : Bracket) : b.symbol.kind = .inr b := by cases b <;> rfl

@[simp] theorem Action.bracket?_symbol (a : Action) : a.symbol.bracket? = none := by
  cases a <;> rfl

@[simp] theorem Bracket.bracket?_symbol (b : Bracket) : b.symbol.bracket? = some b := by
  cases b <;> rfl

@[simp] theorem Action.symbol_inj {a b : Action} : a.symbol = b.symbol ↔ a = b := by
  cases a <;> cases b <;> decide

theorem Symbol.cases_kind (s : Symbol) :
    (∃ a : Action, s = a.symbol) ∨ ∃ b : Bracket, s = b.symbol := by
  cases kind : s.kind with
  | inl a => exact .inl ⟨a, by cases s <;> cases kind <;> rfl⟩
  | inr b => exact .inr ⟨b, by cases s <;> cases kind <;> rfl⟩

inductive Block (α : Type) where
  | stop
  | action (a : α) (rest : Block α)
  | loop (body rest : Block α)
  deriving DecidableEq, Repr

namespace Block

open Nesting

variable {α β γ : Type}

/-- A block written out, with given spellings of its actions and brackets. -/
def spell (leaf : α → β) (mark : Bracket → β) : Block α → List β
  | stop => []
  | action a rest => leaf a :: rest.spell leaf mark
  | loop body rest =>
    mark .opening :: (body.spell leaf mark ++ mark .closing :: rest.spell leaf mark)

def symbols (b : Block Action) : List Symbol := b.spell Action.symbol Bracket.symbol

def brackets (b : Block α) : List (Option Bracket) := b.spell (fun _ => none) some

def append : Block α → Block α → Block α
  | stop, c => c
  | action a rest, c => action a (rest.append c)
  | loop body rest, c => loop body (rest.append c)

/-- The block a list of symbols begins with, and the blocks behind the brackets that close too
early, all of them in order. There is none if a bracket is not closed. -/
def nest : List Symbol → Option (Block Action × List (Block Action))
  | [] => some (stop, [])
  | s :: rest =>
    (nest rest).bind fun (b, outer) =>
      match s.kind, outer with
      | .inl a, _ => some (action a b, outer)
      | .inr .closing, _ => some (stop, b :: outer)
      | .inr .opening, after :: outer => some (loop b after, outer)
      | .inr .opening, [] => none

def ofSymbols? (l : List Symbol) : Option (Block Action) :=
  match nest l with
  | some (b, []) => some b
  | _ => none

theorem map_spell (f : β → γ) (leaf : α → β) (mark : Bracket → β) (b : Block α) :
    (b.spell leaf mark).map f = b.spell (fun a => f (leaf a)) (fun m => f (mark m)) := by
  induction b with
  | stop => rfl
  | action a rest ih => simp [spell, ih]
  | loop body rest ihBody ihRest => simp [spell, ihBody, ihRest]

@[simp] theorem brackets_symbols (b : Block Action) :
    b.symbols.map Symbol.bracket? = b.brackets := by
  simp [symbols, brackets, map_spell]

@[simp] theorem append_stop (b : Block α) : b.append stop = b := by
  induction b with
  | stop => rfl
  | action a rest ih => simp [append, ih]
  | loop body rest _ ih => simp [append, ih]

theorem balanced_brackets (b : Block α) : Balanced b.brackets := by
  induction b with
  | stop => exact balanced_nil
  | action a rest ih => exact balanced_none_cons.2 ih
  | loop body rest ihBody ihRest => simpa [brackets, spell] using ihBody.enclose.append ihRest

theorem getElem?_loop {x y z : β} {inside behind : List β} {i : Nat}
    (here : (x :: (inside ++ y :: behind))[i]? = some z) :
    (i = 0 ∧ z = x) ∨ (∃ k, i = k + 1 ∧ inside[k]? = some z) ∨
      (i = inside.length + 1 ∧ z = y) ∨ ∃ k, i = k + (inside.length + 2) ∧ behind[k]? = some z := by
  cases i with
  | zero => exact .inl ⟨rfl, by simpa using here.symm⟩
  | succ i =>
    rw [List.getElem?_cons_succ] at here
    rcases Nat.lt_trichotomy i inside.length with within | rfl | beyond
    · rw [List.getElem?_append_left within] at here
      exact .inr (.inl ⟨i, rfl, here⟩)
    · rw [List.getElem?_append_right (Nat.le_refl _), Nat.sub_self] at here
      exact .inr (.inr (.inl ⟨rfl, by simpa using here.symm⟩))
    · obtain ⟨k, rfl⟩ := Nat.exists_eq_add_of_lt beyond
      rw [List.getElem?_append_right (by omega),
        show inside.length + k + 1 - inside.length = k + 1 by omega] at here
      exact .inr (.inr (.inr ⟨k, by omega, by simpa using here⟩))

theorem brackets_stop : (stop : Block α).brackets = [] := rfl

theorem brackets_action (a : α) (rest : Block α) :
    (action a rest).brackets = none :: rest.brackets := rfl

theorem brackets_loop (body rest : Block α) :
    (loop body rest).brackets =
      some .opening :: (body.brackets ++ some .closing :: rest.brackets) := rfl

theorem matched_loop (body rest : Block α) :
    Matched (loop body rest).brackets 0 (body.brackets.length + 1) :=
  ⟨[], body.brackets, rest.brackets, rfl, body.balanced_brackets, rfl, by simp; omega⟩

theorem matched_body {body : Block α} {i j : Nat} (rest : Block α)
    (matched : Matched body.brackets i j) : Matched (loop body rest).brackets (i + 1) (j + 1) :=
  (matched.append_right _).cons _

theorem matched_rest (body : Block α) {rest : Block α} {i j : Nat}
    (matched : Matched rest.brackets i j) :
    Matched (loop body rest).brackets (i + (body.brackets.length + 2))
      (j + (body.brackets.length + 2)) := by
  have shifted := matched.append_left (some .opening :: (body.brackets ++ [some .closing]))
  have length : (some Bracket.opening :: (body.brackets ++ [some .closing])).length =
      body.brackets.length + 2 := by simp
  rw [length, Nat.add_comm _ i, Nat.add_comm _ j] at shifted
  simpa [brackets_loop] using shifted

theorem exists_matched (b : Block α) {i : Nat} (opens : b.brackets[i]? = some (some .opening)) :
    ∃ j, Matched b.brackets i j := by
  induction b generalizing i with
  | stop => simp [brackets_stop] at opens
  | action a rest ih =>
    cases i with
    | zero => simp [brackets_action] at opens
    | succ i =>
      obtain ⟨j, matched⟩ := ih (i := i) (by simpa [brackets_action] using opens)
      exact ⟨j + 1, matched.cons none⟩
  | loop body rest ihBody ihRest =>
    rcases getElem?_loop opens with ⟨rfl, -⟩ | ⟨k, rfl, inside⟩ | ⟨-, impossible⟩ | ⟨k, rfl, behind⟩
    · exact ⟨_, matched_loop body rest⟩
    · obtain ⟨j, matched⟩ := ihBody inside
      exact ⟨_, matched_body rest matched⟩
    · cases impossible
    · obtain ⟨j, matched⟩ := ihRest behind
      exact ⟨_, matched_rest body matched⟩

theorem nest_symbols_append (b : Block Action) (l : List Symbol) :
    nest (b.symbols ++ l) = (nest l).map fun (c, outer) => (b.append c, outer) := by
  induction b generalizing l with
  | stop => cases h : nest l <;> simp [symbols, spell, append, h]
  | action a rest ih =>
    have head : (action a rest).symbols ++ l = a.symbol :: (rest.symbols ++ l) := rfl
    rw [head, nest, ih]
    cases nest l <;> simp [append]
  | loop body rest ihBody ihRest =>
    have head : (loop body rest).symbols ++ l =
        Bracket.opening.symbol ::
          (body.symbols ++ Bracket.closing.symbol :: (rest.symbols ++ l)) := by
      simp [symbols, spell]
    rw [head, nest, ihBody, nest, ihRest]
    cases nest l <;> simp [append]

theorem ofSymbols?_symbols (b : Block Action) : ofSymbols? b.symbols = some b := by
  have := nest_symbols_append b []
  simp only [List.append_nil] at this
  simp [ofSymbols?, this, nest]

theorem eq_of_nest {l : List Symbol} {b : Block Action} {outer : List (Block Action)}
    (nested : nest l = some (b, outer)) :
    l = b.symbols ++ outer.flatMap fun c => .loopEnd :: c.symbols := by
  induction l generalizing b outer with
  | nil =>
    obtain ⟨rfl, rfl⟩ : stop = b ∧ [] = outer := by simpa [nest] using nested
    rfl
  | cons s l ih =>
    obtain ⟨⟨c, behind⟩, inner, step⟩ := Option.bind_eq_some_iff.1 nested
    have spelled := ih inner
    rcases s.cases_kind with ⟨a, rfl⟩ | ⟨_ | _, rfl⟩
    · obtain ⟨rfl, rfl⟩ : action a c = b ∧ behind = outer := by simpa using step
      rw [spelled]
      rfl
    · cases behind with
      | nil => simp at step
      | cons after behind =>
        obtain ⟨rfl, rfl⟩ : loop c after = b ∧ behind = outer := by simpa using step
        rw [spelled]
        simp [symbols, spell, Bracket.symbol]
    · obtain ⟨rfl, rfl⟩ : stop = b ∧ c :: behind = outer := by simpa using step
      rw [spelled]
      simp [symbols, spell, Bracket.symbol]

/-- A list that leaves nothing open nests, with as many brackets closing early as its depth tells.
-/
theorem exists_nest (l : List Symbol)
    (below : ∀ k, depth ((l.map Symbol.bracket?).drop k) ≤ 0) :
    ∃ b outer, nest l = some (b, outer) ∧
      depth (l.map Symbol.bracket?) = - (outer.length : Int) := by
  induction l with
  | nil => exact ⟨stop, [], rfl, rfl⟩
  | cons s l ih =>
    obtain ⟨b, outer, nested, level⟩ := ih fun k => below (k + 1)
    rcases s.cases_kind with ⟨a, rfl⟩ | ⟨_ | _, rfl⟩
    · exact ⟨action a b, outer, by simp [nest, nested], by simpa using level⟩
    · cases outer with
      | nil =>
        have := below 0
        simp [level] at this
      | cons after outer =>
        refine ⟨loop b after, outer, by simp [nest, nested], ?_⟩
        simp only [List.map_cons, Bracket.bracket?_symbol, depth_opening_cons, level,
          List.length_cons]
        omega
    · refine ⟨stop, b :: outer, by simp [nest, nested], ?_⟩
      simp only [List.map_cons, Bracket.bracket?_symbol, depth_closing_cons, level,
        List.length_cons]
      omega

theorem ofSymbols?_eq_some_iff {l : List Symbol} {b : Block Action} :
    ofSymbols? l = some b ↔ b.symbols = l := by
  constructor
  · intro found
    rcases nested : nest l with _ | ⟨c, _ | ⟨d, outer⟩⟩
    · simp [ofSymbols?, nested] at found
    · obtain rfl : c = b := by simpa [ofSymbols?, nested] using found
      simpa using (eq_of_nest nested).symm
    · simp [ofSymbols?, nested] at found
  · rintro rfl
    exact b.ofSymbols?_symbols

/-- Every balanced list spells a block. -/
theorem exists_ofSymbols? {l : List Symbol} (balanced : Balanced (l.map Symbol.bracket?)) :
    ∃ b, ofSymbols? l = some b := by
  obtain ⟨b, outer, nested, level⟩ := exists_nest l balanced.drop_le
  have empty : outer.length = 0 := by
    have := balanced.level
    omega
  obtain rfl := List.length_eq_zero_iff.1 empty
  exact ⟨b, by simp [ofSymbols?, nested]⟩

theorem exists_brackets {l : List (Option Bracket)} (balanced : Balanced l) :
    ∃ b : Block Action, b.brackets = l := by
  have spelled : (l.map fun m => m.elim Symbol.increment Bracket.symbol).map Symbol.bracket? = l := by
    rw [List.map_map]
    conv => rhs; rw [← List.map_id l]
    congr 1
    funext m
    rcases m with _ | m
    · rfl
    · exact m.bracket?_symbol
  obtain ⟨b, found⟩ := exists_ofSymbols? (spelled.symm ▸ balanced)
  exact ⟨b, by rw [← brackets_symbols, ofSymbols?_eq_some_iff.1 found, spelled]⟩

/-- The first action, unless the block begins with a loop or has ended. -/
def first? : Block α → Option α
  | action a _ => some a
  | stop | loop _ _ => none

def fold : Block Action → Block (Action × Nat)
  | stop => stop
  | action a rest =>
    match rest.fold with
    | action (c, n) tail =>
      if a = c then action (a, n + 1) tail else action (a, 1) (action (c, n) tail)
    | other => action (a, 1) other
  | loop body rest => loop body.fold rest.fold

def repeated (a : Action) : Nat → Block Action → Block Action
  | 0, rest => rest
  | n + 1, rest => action a (repeated a n rest)

def unfold : Block (Action × Nat) → Block Action
  | stop => stop
  | action (a, n) rest => repeated a n rest.unfold
  | loop body rest => loop body.unfold rest.unfold

/-- The stretches of symbols that a folded block stands for. -/
def pieces (b : Block (Action × Nat)) : List (Symbol × Nat) :=
  b.spell (fun p => (p.1.symbol, p.2)) fun m => (m.symbol, 1)

@[simp] theorem pieces_stop : (stop : Block (Action × Nat)).pieces = [] := rfl

@[simp] theorem pieces_action (a : Action) (n : Nat) (rest : Block (Action × Nat)) :
    (action (a, n) rest).pieces = (a.symbol, n) :: rest.pieces := rfl

@[simp] theorem pieces_loop (body rest : Block (Action × Nat)) :
    (loop body rest).pieces =
      (.loopStart, 1) :: (body.pieces ++ (.loopEnd, 1) :: rest.pieces) := rfl

/-- No count is zero, and no action is followed by more of the same. -/
inductive Folded : Block (Action × Nat) → Prop where
  | stop : Folded stop
  | action {a : Action} {n : Nat} {rest : Block (Action × Nat)} (positive : 1 ≤ n)
      (last : rest.first?.map Prod.fst ≠ some a) (tail : Folded rest) :
      Folded (action (a, n) rest)
  | loop {body rest : Block (Action × Nat)} (inner : Folded body) (tail : Folded rest) :
      Folded (loop body rest)

/-- Folding lengthens the first stretch or begins a new one. -/
theorem fold_action (a : Action) (rest : Block Action) :
    (∃ n tail, rest.fold = action (a, n) tail ∧ (action a rest).fold = action (a, n + 1) tail) ∨
      (rest.fold.first?.map Prod.fst ≠ some a ∧ (action a rest).fold = action (a, 1) rest.fold) := by
  cases shape : rest.fold with
  | stop => exact .inr ⟨by simp [first?], by simp [fold, shape]⟩
  | loop inner behind => exact .inr ⟨by simp [first?], by simp [fold, shape]⟩
  | action p tail =>
    obtain ⟨c, n⟩ := p
    by_cases same : a = c
    · subst same
      exact .inl ⟨n, tail, rfl, by simp [fold, shape]⟩
    · exact .inr ⟨by simpa [first?] using Ne.symm same, by simp [fold, shape, same]⟩

theorem folded_fold (b : Block Action) : b.fold.Folded := by
  induction b with
  | stop => exact .stop
  | loop body rest ihBody ihRest => exact .loop ihBody ihRest
  | action a rest ih =>
    rcases fold_action a rest with ⟨n, tail, before, after⟩ | ⟨differs, after⟩
    · rw [before] at ih
      rw [after]
      cases ih with
      | action positive last inner => exact .action (Nat.le_succ_of_le positive) last inner
    · rw [after]
      exact .action (Nat.le_refl 1) differs ih

theorem unfold_fold (b : Block Action) : b.fold.unfold = b := by
  induction b with
  | stop => rfl
  | loop body rest ihBody ihRest => simp [fold, unfold, ihBody, ihRest]
  | action a rest ih =>
    rcases fold_action a rest with ⟨n, tail, before, after⟩ | ⟨-, after⟩
    · rw [before, unfold] at ih
      rw [after, unfold, repeated, ih]
    · rw [after, unfold, ih]
      rfl

theorem joins_bracket (s : Symbol) (m : Bracket) : s.joins m.symbol = false := by
  cases s <;> cases m <;> rfl

theorem bracket_joins (m : Bracket) (s : Symbol) : m.symbol.joins s = false := by
  cases s <;> cases m <;> rfl

theorem stretches_bracket_cons (m : Bracket) (l : List Symbol) :
    stretches Symbol.joins (m.symbol :: l) = (m.symbol, 1) :: stretches Symbol.joins l :=
  stretches_append [m.symbol] (by simp [bracket_joins])

/-- Folding a block finds the stretches of its symbols. -/
theorem stretches_symbols (b : Block Action) :
    stretches Symbol.joins b.symbols = b.fold.pieces := by
  induction b with
  | stop => rfl
  | loop body rest ihBody ihRest =>
    have split : (loop body rest).symbols =
        Bracket.opening.symbol :: (body.symbols ++ Bracket.closing.symbol :: rest.symbols) := rfl
    rw [split, stretches_bracket_cons, stretches_append, ihBody, stretches_bracket_cons, ihRest]
    · rfl
    · simp [joins_bracket]
  | action a rest ih =>
    have split : (action a rest).symbols = a.symbol :: rest.symbols := rfl
    rw [split, stretches, ih]
    cases tail : rest.fold with
    | stop => simp [fold, tail]
    | loop inner behind =>
      have apart : a.symbol.joins .loopStart = false := joins_bracket _ .opening
      simp [fold, tail, apart]
    | action p behind =>
      obtain ⟨c, n⟩ := p
      have same : a.symbol.joins c.symbol = true ↔ a = c := by simp [Symbol.joins_iff]
      simp only [fold, tail, pieces_action, same]
      split <;> rfl

end Block
end TapeVM
