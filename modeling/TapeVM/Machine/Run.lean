import TapeVM.Machine.Trace
import TapeVM.Statistics

/-! Runs of a machine. A run makes one step after the other until the program counter leaves the
program or a step ends in a fault; it may go on for ever, so it is followed for a number of steps
that the caller chooses. Following it further never changes how it ended. -/
namespace TapeVM

/-- A run under way: its machine, whether it is traced, how many instructions have been dispatched,
and the lines traced so far, oldest first. -/
structure Run where
  machine : Machine
  traced : Bool := false
  steps : Nat := 0
  trace : Array String := #[]

namespace Run

inductive Ending where
  | finished
  | faulted (fault : Machine.Fault)
  deriving DecidableEq, Repr

/-- An instruction that ends in a fault is counted too. -/
def dispatch (run : Run) (i : Instruction) : Run × Option Ending :=
  let { machine, traced, steps, trace } := run
  let (machine, fault) := machine.dispatch i
  ({ machine, traced, steps := steps + 1, trace }, fault.map .faulted)

def next (run : Run) : Run × Option Ending :=
  match run.machine.next? with
  | none => (run, some .finished)
  | some i =>
    if run.traced then
      match run.machine.traceLine run.steps with
      | .error fault => (run, some (.faulted fault))
      | .ok line => { run with trace := run.trace.push line }.dispatch i
    else run.dispatch i

def follow : (count : Nat) → Run → Run × Option Ending
  | 0, run => (run, none)
  | count + 1, run =>
    match run.next with
    | (run, none) => follow count run
    | (run, some ending) => (run, some ending)

@[simp] theorem follow_zero (run : Run) : run.follow 0 = (run, none) := rfl

theorem follow_succ_of_next {run next : Run} (count : Nat) (h : run.next = (next, none)) :
    run.follow (count + 1) = next.follow count := by
  simp [follow, h]

theorem follow_succ_of_ending {run last : Run} {ending : Ending} (count : Nat)
    (h : run.next = (last, some ending)) : run.follow (count + 1) = (last, some ending) := by
  simp [follow, h]

theorem follow_add (run : Run) (first second : Nat) :
    run.follow (first + second) =
      match run.follow first with
      | (run, none) => run.follow second
      | (run, some ending) => (run, some ending) := by
  induction first generalizing run with
  | zero => simp
  | succ first ih =>
    rw [Nat.succ_add]
    rcases h : run.next with ⟨next, _ | ending⟩
    · rw [follow_succ_of_next _ h, follow_succ_of_next _ h, ih]
    · rw [follow_succ_of_ending _ h, follow_succ_of_ending _ h]

/-- A run that has ended has ended in the same way when it is followed further. -/
theorem follow_of_le {run last : Run} {ending : Ending} {count more : Nat} (le : count ≤ more)
    (h : run.follow count = (last, some ending)) : run.follow more = (last, some ending) := by
  obtain ⟨extra, rfl⟩ := Nat.exists_eq_add_of_le le
  rw [follow_add, h]

/-- Whatever way a run ends, its output is flushed then. -/
def close (run : Run) : Run :=
  { run with machine := { run.machine with console := run.machine.console.flush } }

/-- The whole of a run that ends within `limit` steps. -/
def complete (limit : Nat) (run : Run) : Option (Run × Ending) :=
  match run.follow limit with
  | (run, some ending) => some (run.close, ending)
  | (_, none) => none

/-- The steps of a run are added to those counted before, however it ended. -/
def account (run : Run) (stats : Statistics) : Statistics := stats.addCount "steps" run.steps

def withoutHistory (run : Run) : Run :=
  { run with
    machine := { run.machine with console := { run.machine.console with calls := #[] } }
    trace := #[] }

end Run

namespace Machine

/-- A run of a machine from where it stands, traced if the verbosity is positive. -/
def start (m : Machine) (verbosity : Int) : Run :=
  { machine := m, traced := 0 < verbosity }

/-- The whole of a run, and the statistics after it, if any are kept. There is no answer if it takes
more than `limit` steps. -/
def run (limit : Nat) (m : Machine) (verbosity : Int) (stats : Option Statistics) :
    Option ((Run × Run.Ending) × Option Statistics) :=
  ((m.start verbosity).complete limit).map fun (run, ending) =>
    ((run, ending), stats.map run.account)

end Machine

end TapeVM
