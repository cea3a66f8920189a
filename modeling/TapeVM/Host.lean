import TapeVM.Decimal

/-! The host: the limits it sets to numbers and sizes. It may refuse to write or read a number that
has too many digits, a size has to fit an index, and there has to be memory for it. -/
namespace TapeVM

/-- A limit on digits always leaves room for bytes and for indices. -/
def Roomy (digits index : Option Nat) : Prop :=
  ∀ limit ∈ digits, 640 ≤ limit ∧ ∃ last ∈ index, last ≤ 9223372036854775807

instance : (digits index : Option Nat) → Decidable (Roomy digits index)
  | none, _ => isTrue (by simp [Roomy])
  | some _, none => isFalse (by simp [Roomy])
  | some limit, some last =>
    decidable_of_iff (640 ≤ limit ∧ last ≤ 9223372036854775807) (by simp [Roomy])

/-- The limits are those a host usually has; one that is none does not exist. -/
structure Host where
  /-- The most digits of a number that is written or read. -/
  digits : Option Nat := some 4300
  /-- The largest index. -/
  index : Option Nat := some 9223372036854775807
  /-- The size of the largest block of memory. -/
  memory : Option Nat := none
  roomy : Roomy digits index := by decide
  deriving DecidableEq, Repr

namespace Host

def Writes (host : Host) (n : Int) : Prop :=
  ∀ limit ∈ host.digits, (Decimal.digits n.natAbs).length ≤ limit

instance (host : Host) (n : Int) : Decidable (host.Writes n) :=
  match h : host.digits with
  | none => isTrue (by simp [Writes, h])
  | some limit => decidable_of_iff ((Decimal.digits n.natAbs).length ≤ limit) (by simp [Writes, h])

/-- A text, or whatever else holds some numbers, is made only if all of them can be written.
Otherwise the limit that one of them exceeds is given. -/
def write (host : Host) (numbers : List Int) (text : α) : Except Nat α :=
  if ∀ n ∈ numbers, host.Writes n then .ok text else .error (host.digits.getD 0)

def overlongMessage (limit : Nat) : String :=
  "Exceeds the limit (" ++ Decimal.natural limit ++ " digits) for integer string conversion; " ++
    "use sys.set_int_max_str_digits() to increase the limit"

inductive Shortage where
  | index | memory
  deriving DecidableEq, Repr

def Shortage.message : Shortage → String
  | index => "cannot fit 'int' into an index-sized integer"
  | memory => ""

/-- A size below zero has to fit an index as well; then it counts as zero. -/
def shortage? (host : Host) (size : Int) : Option Shortage :=
  if ∀ last ∈ host.index, -(last : Int) - 1 ≤ size ∧ size ≤ last then
    if ∀ most ∈ host.memory, size ≤ (most : Int) then none else some .memory
  else some .index

variable {host : Host} {n : Int} {numbers : List Int} {text : α}

theorem writes_of_unlimited (free : host.digits = none) (n : Int) : host.Writes n := by
  simp [Writes, free]

theorem exists_limit_of_not_writes (overlong : ¬ host.Writes n) :
    ∃ limit, host.digits = some limit := by
  cases found : host.digits with
  | none => exact (overlong (writes_of_unlimited found n)).elim
  | some limit => exact ⟨limit, rfl⟩

theorem write_of_writes (writes : ∀ n ∈ numbers, host.Writes n) :
    host.write numbers text = .ok text := if_pos writes

theorem write_of_not_writes (refused : ¬ ∀ n ∈ numbers, host.Writes n) :
    host.write numbers text = .error (host.digits.getD 0) := if_neg refused

theorem write_eq_ok_iff {result : α} :
    host.write numbers text = .ok result ↔ (∀ n ∈ numbers, host.Writes n) ∧ result = text := by
  by_cases writes : ∀ n ∈ numbers, host.Writes n
  · simpa [write_of_writes writes, eq_comm] using fun _ => writes
  · simp [write_of_not_writes writes, writes]

theorem exists_write_eq_error (refused : ¬ ∀ n ∈ numbers, host.Writes n) (text : α) :
    ∃ limit, host.digits = some limit ∧ host.write numbers text = .error limit := by
  obtain ⟨n, -, overlong⟩ : ∃ n ∈ numbers, ¬ host.Writes n := by simpa using refused
  obtain ⟨limit, found⟩ := exists_limit_of_not_writes overlong
  exact ⟨limit, found, by rw [write_of_not_writes refused, found]; rfl⟩

theorem write_eq_error_iff {limit : Nat} :
    host.write numbers text = .error limit ↔
      host.digits = some limit ∧ ¬ ∀ n ∈ numbers, host.Writes n := by
  by_cases writes : ∀ n ∈ numbers, host.Writes n
  · simpa [write_of_writes writes] using fun _ => writes
  · obtain ⟨most, found, refused⟩ := exists_write_eq_error writes text
    simp [refused, found, writes]

theorem shortage?_eq_none_iff {size : Int} :
    host.shortage? size = none ↔
      (∀ last ∈ host.index, -(last : Int) - 1 ≤ size ∧ size ≤ last) ∧
        ∀ most ∈ host.memory, size ≤ (most : Int) := by
  rw [shortage?]
  by_cases fits : ∀ last ∈ host.index, -(last : Int) - 1 ≤ size ∧ size ≤ last
  · by_cases room : ∀ most ∈ host.memory, size ≤ (most : Int)
    · rw [if_pos fits, if_pos room]
      exact ⟨fun _ => ⟨fits, room⟩, fun _ => rfl⟩
    · rw [if_pos fits, if_neg room]
      exact ⟨fun absent => (by cases absent), fun both => (room both.2).elim⟩
  · rw [if_neg fits]
    exact ⟨fun absent => (by cases absent), fun both => (fits both.1).elim⟩

theorem shortage?_of_le {small size : Int} (positive : 0 ≤ small) (le : small ≤ size)
    (room : host.shortage? size = none) : host.shortage? small = none := by
  obtain ⟨index, memory⟩ := shortage?_eq_none_iff.1 room
  refine shortage?_eq_none_iff.2 ⟨fun last found => ?_, fun most found => ?_⟩
  · have := index last found
    omega
  · have := memory most found
    omega

end Host
end TapeVM
