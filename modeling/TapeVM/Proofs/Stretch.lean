import Mathlib.Data.List.Chain
import TapeVM.Proofs.Nesting

/-! Stretches: the longest runs of equal elements of a list. What counts as equal is a parameter;
for symbols and tokens it is the same symbol, except that a bracket is never joined to anything. -/
namespace TapeVM

/-- The stretches of a list in order, each with its first element and its length. -/
def stretches {α : Type} (joins : α → α → Bool) : List α → List (α × Nat)
  | [] => []
  | x :: xs =>
    match stretches joins xs with
    | [] => [(x, 1)]
    | (y, n) :: rest => if joins x y then (x, n + 1) :: rest else (x, 1) :: (y, n) :: rest

/-- The list that given stretches make up. -/
def unstretch {α : Type} (pieces : List (α × Nat)) : List α :=
  pieces.flatMap fun (x, n) => List.replicate n x

def Symbol.joins (s t : Symbol) : Bool := s = t && s.bracket? = none

def Terminal.joins (s t : Terminal) : Bool := s = t && s.bracket? = none

def Token.joins (s t : Token) : Bool := s.terminal.joins t.terminal

theorem Symbol.joins_iff {s t : Symbol} : s.joins t ↔ s = t ∧ s.bracket? = none := by
  simp [joins]

theorem Symbol.eq_of_joins (s t : Symbol) (joined : s.joins t) : s = t :=
  (joins_iff.1 joined).1

theorem Terminal.joins_iff {s t : Terminal} : s.joins t ↔ s = t ∧ s.bracket? = none := by
  simp [joins]

@[simp] theorem Terminal.joins_known (s t : Symbol) : joins (known s) (known t) = s.joins t := by
  rw [Bool.eq_iff_iff, joins_iff, Symbol.joins_iff]
  simp [bracket?]

variable {α : Type} {joins : α → α → Bool}

@[simp] theorem unstretch_nil : unstretch ([] : List (α × Nat)) = [] := rfl

@[simp] theorem unstretch_cons (x : α) (n : Nat) (rest : List (α × Nat)) :
    unstretch ((x, n) :: rest) = List.replicate n x ++ unstretch rest := rfl

theorem stretches_cons (joins : α → α → Bool) (x : α) (xs : List α) :
    ∃ n rest, stretches joins (x :: xs) = (x, n + 1) :: rest := by
  simp only [stretches]
  split
  · exact ⟨0, [], rfl⟩
  · split
    · exact ⟨_, _, rfl⟩
    · exact ⟨0, _, rfl⟩

theorem stretches_cons_cons (x y : α) (xs : List α) {n : Nat} {rest : List (α × Nat)}
    (tail : stretches joins (y :: xs) = (y, n) :: rest) :
    stretches joins (x :: y :: xs) =
      if joins x y then (x, n + 1) :: rest else (x, 1) :: (y, n) :: rest := by
  rw [stretches, tail]

/-- Nothing is joined across a place where the neighbours differ. -/
theorem stretches_append (xs : List α) {ys : List α}
    (apart : ∀ x ∈ xs.getLast?, ∀ y ∈ ys.head?, joins x y = false) :
    stretches joins (xs ++ ys) = stretches joins xs ++ stretches joins ys := by
  induction xs with
  | nil => rfl
  | cons x xs ih =>
    cases xs with
    | nil =>
      cases ys with
      | nil => rfl
      | cons y ys =>
        obtain ⟨n, rest, tail⟩ := stretches_cons joins y ys
        have differ : joins x y = false := apart x rfl y rfl
        simp only [List.singleton_append, stretches_cons_cons x y ys tail, tail, differ]
        rfl
    | cons x' xs =>
      have ih := ih fun z member => apart z (by simpa using member)
      obtain ⟨n, rest, tail⟩ := stretches_cons joins x' xs
      obtain ⟨n', rest', tail'⟩ := stretches_cons joins x' (xs ++ ys)
      have both : (x', n' + 1) :: rest' = (x', n + 1) :: rest ++ stretches joins ys := by
        rw [← tail, ← tail', ← ih]
        rfl
      obtain ⟨rfl, rfl⟩ : n' = n ∧ rest' = rest ++ stretches joins ys := by simpa using both
      simp only [List.cons_append, stretches_cons_cons x x' _ tail,
        stretches_cons_cons x x' _ tail']
      split <;> rfl

/-- Where the neighbours are joined, the last stretch goes on into the first one behind it. -/
theorem stretches_append_of_joins (alike : ∀ x y, joins x y → joins y = joins x) {xs ys : List α}
    {x y : α} (last : xs.getLast? = some x) (first : ys.head? = some y) (joined : joins x y) :
    ∃ front z n m rest, stretches joins xs = front ++ [(z, n)] ∧
      stretches joins ys = (y, m) :: rest ∧ joins z y ∧
      stretches joins (xs ++ ys) = front ++ (z, n + m) :: rest := by
  induction xs with
  | nil => cases last
  | cons x' xs ih =>
    cases xs with
    | nil =>
      obtain rfl : x' = x := by simpa using last
      obtain ⟨ys, rfl⟩ := List.head?_eq_some_iff.1 first
      obtain ⟨m, rest, tail⟩ := stretches_cons joins y ys
      refine ⟨[], x', 1, m + 1, rest, rfl, tail, joined, ?_⟩
      rw [List.singleton_append, stretches_cons_cons x' y ys tail, if_pos joined, Nat.add_comm 1]
      rfl
    | cons x'' xs =>
      obtain ⟨front, z, n, m, rest, before, behind, joined', both⟩ := ih (by simpa using last)
      obtain ⟨_, _, shape⟩ := stretches_cons joins x'' xs
      rw [List.cons_append] at both
      cases front with
      | nil =>
        obtain rfl : z = x'' := congrArg Prod.fst (List.cons.inj (before.symm.trans shape)).1
        have short := stretches_cons_cons x' z xs before
        have long := stretches_cons_cons x' z (xs ++ ys) both
        by_cases same : joins x' z
        · rw [if_pos same] at short long
          refine ⟨[], x', n + 1, m, rest, short, behind, alike x' z same ▸ joined', ?_⟩
          rw [List.cons_append, List.cons_append, long, Nat.add_right_comm]
          rfl
        · rw [if_neg same] at short long
          exact ⟨[(x', 1)], z, n, m, rest, short, behind, joined', long⟩
      | cons piece front =>
        obtain ⟨head, k⟩ := piece
        obtain rfl : head = x'' := congrArg Prod.fst (List.cons.inj (before.symm.trans shape)).1
        have short := stretches_cons_cons x' head xs before
        have long := stretches_cons_cons x' head (xs ++ ys) both
        by_cases same : joins x' head
        · rw [if_pos same] at short long
          exact ⟨(x', k + 1) :: front, z, n, m, rest, short, behind, joined', long⟩
        · rw [if_neg same] at short long
          exact ⟨(x', 1) :: (head, k) :: front, z, n, m, rest, short, behind, joined', long⟩

theorem stretches_map {β : Type} {joins' : β → β → Bool} (f : α → β)
    (same : ∀ x y, joins' (f x) (f y) = joins x y) (xs : List α) :
    stretches joins' (xs.map f) = (stretches joins xs).map fun (x, n) => (f x, n) := by
  induction xs with
  | nil => rfl
  | cons x xs ih =>
    simp only [List.map_cons, stretches, ih]
    cases stretches joins xs with
    | nil => rfl
    | cons piece rest =>
      simp only [List.map_cons, same]
      split <;> rfl

/-- The first stretch, found by going on for as long as its first element joins. -/
theorem stretches_eq_takeWhile (alike : ∀ x y, joins x y → joins y = joins x) (x : α)
    (xs : List α) :
    stretches joins (x :: xs) =
      (x, 1 + (xs.takeWhile (joins x)).length) :: stretches joins (xs.dropWhile (joins x)) := by
  induction xs generalizing x with
  | nil => rfl
  | cons y ys ih =>
    rw [stretches_cons_cons x y ys (ih y)]
    by_cases same : joins x y
    · simp [same, alike x y same, Nat.add_comm]
    · simp [same, ih y]

theorem unstretch_stretches (equal : ∀ x y, joins x y → x = y) (xs : List α) :
    unstretch (stretches joins xs) = xs := by
  induction xs with
  | nil => rfl
  | cons x xs ih =>
    cases tail : stretches joins xs with
    | nil =>
      rw [tail] at ih
      simp [stretches, ← ih]
    | cons piece rest =>
      obtain ⟨y, n⟩ := piece
      rw [tail] at ih
      rw [stretches, tail]
      by_cases same : joins x y
      · obtain rfl := equal x y same
        simp [same, List.replicate_succ, ← ih]
      · simp [same, ← ih]

theorem replicate_infix_of_mem (equal : ∀ x y, joins x y → x = y) {xs : List α} {x : α} {n : Nat}
    (member : (x, n) ∈ stretches joins xs) : List.replicate n x <:+: xs := by
  obtain ⟨before, after, split⟩ := List.append_of_mem member
  refine ⟨unstretch before, unstretch after, ?_⟩
  calc unstretch before ++ List.replicate n x ++ unstretch after
      = unstretch (stretches joins xs) := by simp [split, unstretch]
    _ = xs := unstretch_stretches equal xs

/-- Stretches that were not cut short: none is empty, one that joins nothing has length one, and
none could go on into the next. -/
structure Maximal {α : Type} (joins : α → α → Bool) (pieces : List (α × Nat)) : Prop where
  positive : ∀ x n, (x, n) ∈ pieces → 1 ≤ n
  single : ∀ x n, (x, n) ∈ pieces → joins x x = false → n = 1
  apart : pieces.IsChain fun p q => joins p.1 q.1 = false

theorem maximal_stretches (equal : ∀ x y, joins x y → x = y) (xs : List α) :
    Maximal joins (stretches joins xs) := by
  induction xs with
  | nil => exact ⟨by simp [stretches], by simp [stretches], .nil⟩
  | cons x xs ih =>
    cases tail : stretches joins xs with
    | nil =>
      simp only [stretches, tail]
      exact ⟨by simp, by simp, .singleton _⟩
    | cons piece rest =>
      obtain ⟨y, n⟩ := piece
      rw [tail] at ih
      obtain ⟨positive, single, apart⟩ := ih
      rw [stretches, tail]
      by_cases same : joins x y
      · obtain rfl := equal x y same
        simp only [same, if_true]
        refine ⟨?_, ?_, ?_⟩
        · rintro z m (_ | ⟨_, member⟩)
          · omega
          · exact positive z m (List.mem_cons_of_mem _ member)
        · rintro z m (_ | ⟨_, member⟩) alone
          · simp [same] at alone
          · exact single z m (List.mem_cons_of_mem _ member) alone
        · cases apart with
          | singleton => exact .singleton _
          | cons_cons differ chain => exact .cons_cons differ chain
      · simp only [same]
        refine ⟨?_, ?_, .cons_cons (by simpa using same) apart⟩
        · rintro z m (_ | ⟨_, member⟩)
          · omega
          · exact positive z m member
        · rintro z m (_ | ⟨_, member⟩) alone
          · rfl
          · exact single z m member alone

theorem stretches_replicate (x : α) (n : Nat) (whole : joins x x = false → n = 0) :
    stretches joins (List.replicate (n + 1) x) = [(x, n + 1)] := by
  induction n with
  | zero => rfl
  | succ n ih =>
    have same : joins x x = true := by
      by_contra alone
      simpa using whole (by simpa using alone)
    have tail := ih fun alone => by simp [same] at alone
    rw [List.replicate_succ] at tail
    rw [List.replicate_succ, List.replicate_succ, stretches_cons_cons x x _ tail, if_pos same]

theorem length_le_length_unstretch {pieces : List (α × Nat)}
    (positive : ∀ x n, (x, n) ∈ pieces → 1 ≤ n) : pieces.length ≤ (unstretch pieces).length := by
  induction pieces with
  | nil => exact Nat.le_refl 0
  | cons piece rest ih =>
    obtain ⟨x, n⟩ := piece
    have first := positive x n List.mem_cons_self
    have others := ih fun y m member => positive y m (List.mem_cons_of_mem _ member)
    rw [unstretch_cons, List.length_append, List.length_replicate, List.length_cons]
    omega

theorem le_length_unstretch {pieces : List (α × Nat)} {x : α} {n : Nat}
    (member : (x, n) ∈ pieces) : n ≤ (unstretch pieces).length := by
  induction pieces with
  | nil => cases member
  | cons piece rest ih =>
    obtain ⟨y, m⟩ := piece
    rw [unstretch_cons, List.length_append, List.length_replicate]
    rcases List.mem_cons.1 member with same | later
    · have := (Prod.mk.inj same).2
      omega
    · have := ih later
      omega

theorem head?_unstretch {pieces : List (α × Nat)} (positive : ∀ x n, (x, n) ∈ pieces → 1 ≤ n) :
    (unstretch pieces).head? = pieces.head?.map Prod.fst := by
  cases pieces with
  | nil => rfl
  | cons piece rest =>
    obtain ⟨x, n⟩ := piece
    obtain ⟨n, rfl⟩ := Nat.exists_eq_add_of_le' (positive x n (by simp))
    simp [List.replicate_succ]

theorem unstretch_append (front rest : List (α × Nat)) :
    unstretch (front ++ rest) = unstretch front ++ unstretch rest :=
  List.flatMap_append

theorem getLast?_unstretch {pieces : List (α × Nat)}
    (positive : ∀ x n, (x, n) ∈ pieces → 1 ≤ n) :
    (unstretch pieces).getLast? = pieces.getLast?.map Prod.fst := by
  rcases List.eq_nil_or_concat' pieces with rfl | ⟨front, ⟨x, n⟩, rfl⟩
  · rfl
  · obtain ⟨n, rfl⟩ := Nat.exists_eq_add_of_le' (positive x n (by simp))
    simp [unstretch_append, List.getLast?_append, List.getLast?_replicate]

theorem Maximal.front {front rest : List (α × Nat)} (maximal : Maximal joins (front ++ rest)) :
    Maximal joins front where
  positive x n member := maximal.positive x n (List.mem_append_left rest member)
  single x n member := maximal.single x n (List.mem_append_left rest member)
  apart := (List.isChain_append.1 maximal.apart).1

theorem Maximal.behind {front rest : List (α × Nat)} (maximal : Maximal joins (front ++ rest)) :
    Maximal joins rest where
  positive x n member := maximal.positive x n (List.mem_append_right front member)
  single x n member := maximal.single x n (List.mem_append_right front member)
  apart := (List.isChain_append.1 maximal.apart).2.1

theorem Maximal.tail {piece : α × Nat} {rest : List (α × Nat)}
    (maximal : Maximal joins (piece :: rest)) : Maximal joins rest where
  positive x n member := maximal.positive x n (List.mem_cons_of_mem _ member)
  single x n member := maximal.single x n (List.mem_cons_of_mem _ member)
  apart := maximal.apart.of_cons

/-- There is only one way to cut a list into stretches that are not cut short. -/
theorem stretches_unstretch {pieces : List (α × Nat)} (maximal : Maximal joins pieces) :
    stretches joins (unstretch pieces) = pieces := by
  induction pieces with
  | nil => rfl
  | cons piece rest ih =>
    obtain ⟨x, n⟩ := piece
    have whole := maximal.single x n (by simp)
    obtain ⟨n, rfl⟩ := Nat.exists_eq_add_of_le' (maximal.positive x n (by simp))
    rw [unstretch_cons, stretches_append, ih maximal.tail,
      stretches_replicate x n fun alone => by simpa using whole alone]
    · rfl
    · intro y last z first
      obtain rfl : x = y := by simpa [List.getLast?_replicate] using last
      rw [head?_unstretch maximal.tail.positive] at first
      cases rest with
      | nil => simp at first
      | cons piece rest =>
        obtain rfl : piece.1 = z := by simpa using first
        exact (List.isChain_cons_cons.1 maximal.apart).1

end TapeVM
