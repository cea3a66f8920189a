import TapeVM.Decimal.Fixed
import TapeVM.Decimal.Grouped
import TapeVM.Host
import TapeVM.Text.Justified
import TapeVM.Text.Style

/-! Named measurements of a run and the table that shows them. Entries stand in the order in which
their names first came up; a later value replaces the earlier one in its place. -/
namespace TapeVM

inductive Measure where
  | count (number : Int)
  | seconds (duration : Float)

structure Statistics where
  entries : List (String × Measure) := []

namespace Statistics

def putEntry (name : String) (value : Measure) :
    List (String × Measure) → List (String × Measure)
  | [] => [(name, value)]
  | (other, old) :: rest =>
    if other = name then (name, value) :: rest else (other, old) :: putEntry name value rest

def put (stats : Statistics) (name : String) (value : Measure) : Statistics :=
  ⟨putEntry name value stats.entries⟩

def get? (stats : Statistics) (name : String) : Option Measure :=
  stats.entries.lookup name

@[simp] theorem get?_put_self (stats : Statistics) (name : String) (value : Measure) :
    (stats.put name value).get? name = some value := by
  suffices ∀ entries, (putEntry name value entries).lookup name = some value from this _
  intro entries
  induction entries with
  | nil => simp [putEntry]
  | cons entry rest ih =>
    obtain ⟨other, old⟩ := entry
    by_cases h : other = name
    · simp [putEntry, h]
    · have : (name == other) = false := beq_eq_false_iff_ne.2 (Ne.symm h)
      simp [putEntry, h, List.lookup_cons, this, ih]

/-- The number counted so far under a name, zero before the first count. -/
def countOf (stats : Statistics) (name : String) : Int :=
  match stats.get? name with
  | some (.count number) => number
  | _ => 0

def addCount (stats : Statistics) (name : String) (amount : Nat) : Statistics :=
  stats.put name (.count (stats.countOf name + amount))

theorem countOf_addCount (stats : Statistics) (name : String) (amount : Nat) :
    (stats.addCount name amount).countOf name = stats.countOf name + amount := by
  rw [addCount, countOf, get?_put_self]

def ofEntries (entries : List (String × Measure)) : Statistics :=
  entries.foldl (fun stats (name, value) => stats.put name value) {}

end Statistics

/-- Durations have three places. -/
def Measure.text : Measure → String
  | count number => Decimal.grouped number
  | seconds duration => Decimal.fixed 3 (.ofBits duration.toBits) ++ "s"

/-- The numbers that are limited by the host; a duration is none of them. -/
def Measure.numbers : Measure → List Int
  | count number => [number]
  | seconds _ => []

def Measure.write (host : Host) (value : Measure) : Except Nat String :=
  host.write value.numbers value.text

namespace Statistics

def row (name : String) (value : Measure) : String :=
  Text.padRight 14 name ++ Text.Style.bright.paint value.text

/-- A title and one row for each entry, the last of which is not ended by a newline. -/
def table (stats : Statistics) : String :=
  "\n".intercalate (("\n" ++ Text.Style.title.paint " STATISTICS. ") ::
    stats.entries.map fun (name, value) => row name value)

def numbers (stats : Statistics) : List Int :=
  stats.entries.flatMap fun (_, value) => value.numbers

def write (host : Host) (stats : Statistics) : Except Nat String :=
  host.write stats.numbers stats.table

end Statistics
end TapeVM
