import TapeVM.Proofs.Excerpts
import TapeVM.Proofs.Outcomes

/-! Composition: standard error part by part. The lines of the trace come first, the report of a
failure follows, and the table of the statistics closes it. What is in these parts is settled by the
engine alone: by the failure that refused the source, or else by the course of the machine. -/
namespace TapeVM

open Text (Style)

theorem intercalate_newline (first : String) (lines : List String) :
    "\n".intercalate (first :: lines) = first ++ String.join (lines.map ("\n" ++ ·)) := by
  induction lines generalizing first with
  | nil => simp
  | cons line lines ih =>
    rw [String.intercalate_cons_cons, ih, List.map_cons, String.join_cons]
    simp only [String.append_assoc]

/-- A table is a title and, in order, a row for each entry, all of them on lines of their own. -/
theorem Statistics.table_eq (stats : Statistics) :
    stats.table = "\n" ++ Style.title.paint " STATISTICS. " ++
      String.join (stats.entries.map fun (name, value) =>
        "\n" ++ (Text.padRight 14 name ++ Style.bright.paint value.text)) := by
  rw [table, intercalate_newline, List.map_map]
  rfl

/-- What the table of a run shows: the length of its program, the time until the machine was ready,
the steps and, if the run was finished, the time it took. -/
def Run.table (length : Nat) (compiling : Float) (steps : Nat) (running : Option Float) : String :=
  let seconds (duration : Float) := Decimal.fixed 3 (.ofBits duration.toBits) ++ "s"
  let rows := [
    ("instructions  ", Decimal.grouped length),
    ("compile       ", seconds compiling),
    ("steps         ", Decimal.grouped steps)] ++
    running.toList.map fun duration => ("run           ", seconds duration)
  "\n" ++ Style.title.paint " STATISTICS. " ++
    String.join (rows.map fun (name, value) => "\n" ++ (name ++ Style.bright.paint value))

theorem Run.table_measured (length : Nat) (compiling : Float) (steps : Nat)
    (running : Option Float) :
    (measured length compiling steps running).table = table length compiling steps running := by
  have names : Text.padRight 14 "instructions" = "instructions  " ∧
      Text.padRight 14 "compile" = "compile       " ∧ Text.padRight 14 "steps" = "steps         " ∧
      Text.padRight 14 "run" = "run           " := by decide
  rw [Statistics.table_eq, table]
  cases running <;> simp [measured, names, Measure.text]

/-- Where the error is that a diagnostic is about, in the categories that know it. -/
def Diagnostic.mark? : Diagnostic → Option Mark
  | .parse _ _ mark | .incomplete _ _ mark _ => some mark
  | .general .. | .value .. | .tape .. | .input .. => none

theorem Diagnostic.mark?_isSome_iff (diagnostic : Diagnostic) :
    diagnostic.mark?.isSome ↔ .parse ∈ diagnostic.category.lineage := by
  cases diagnostic <;> simp [mark?, category, Category.lineage]

/-- A failure is shown with an excerpt around its mark if it has one, and without one otherwise. -/
theorem Failure.excerpt_eq {failure : Failure} {diagnostic : Diagnostic}
    (told : failure.diagnostic? = some diagnostic) (source : List UInt8) (file : String) :
    (diagnostic.mark? = none ∧ failure.excerpt source file = "") ∨
      ∃ location token, diagnostic.mark? = some (mark location token) ∧
        failure.excerpt source file =
          Excerpt.text file location.line location.column token (.bytes source) := by
  match failure with
  | .assembling (.unexpectedClosing location) name =>
    obtain rfl := Option.some.inj told
    exact .inr ⟨location, "]", rfl, rfl⟩
  | .assembling (.unclosed location remaining) name =>
    obtain rfl := Option.some.inj told
    exact .inr ⟨location, "[", rfl, rfl⟩
  | .loading (.tapeSize _) | .loading (.operandOutOfRange _ _) | .running (.tapeOverflow _ _)
  | .running (.input _) =>
    obtain rfl := Option.some.inj told
    exact .inl ⟨rfl, rfl⟩

namespace Command

variable {host : Host} {task : Task}

/-- The user is told of a failure: it has a diagnostic, and if it is a parse error, and only then,
its report has an excerpt, around the place that the diagnostic names. -/
def Task.Tells (task : Task) (failure : Failure) : Prop :=
  ∃ diagnostic, failure.diagnostic? = some diagnostic ∧
    if .parse ∈ diagnostic.category.lineage then
      ∃ location token, diagnostic.mark? = some (Failure.mark location token) ∧
        failure.excerpt task.source task.file = "\n" ++ String.join (
          (Excerpt.header task.file location.line ::
            (Excerpt.rows location.line location.column token.length (.bytes task.source)).map
              Excerpt.Row.text).map (· ++ "\n"))
    else failure.excerpt task.source task.file = ""

theorem Task.tells_of_reportable {failure : Failure}
    (reportable : failure.Reportable host task.source) : task.Tells failure := by
  obtain ⟨diagnostic, told⟩ := Option.isSome_iff_exists.1 reportable.told
  refine ⟨diagnostic, told, ?_⟩
  rcases Failure.excerpt_eq told task.source task.file with
    ⟨unmarked, bare⟩ | ⟨location, token, marked, shown⟩
  · rw [if_neg (by simp [← Diagnostic.mark?_isSome_iff, unmarked])]
    exact bare
  · rw [if_pos (by simp [← Diagnostic.mark?_isSome_iff, marked])]
    exact ⟨location, token, marked, shown.trans (Excerpt.text_eq ..)⟩

/-- What a command shows on standard error, and the failure that it leaves uncaught. -/
def Outcome.report (outcome : Outcome) : String × Option Failure :=
  (outcome.errors, outcome.uncaught)

/-- Standard error is made of its parts and of nothing else, for every command line that has a
script run. For a script that is refused it is the report of the failure, unless the host has no
room for the tape: then nothing is reported, and the failure is left uncaught. Otherwise it is, in
this order, a line for each instruction that was dispatched, if the run is traced; the report of the
failure that ended the run, if one did; and the table, if statistics are asked for, which counts the
instructions of the program and those dispatched, the failing one included, and has a time for the
run only if that was finished. A report comes with an excerpt for errors of parsing only. The host
has room for the script, and if the program is watched, it can write the number of the steps. -/
theorem standard_error_is_composed {words : List String} {inv : Invocation}
    (read : Invocation.ofWords words = .ok inv) (runs : inv.disassemble = false) {screen : Screen}
    {directory : Directory} {environment : Option String} {input : List UInt8}
    (valid : taskOf words host screen directory environment input = .ok task)
    (room : host.shortage? task.source.length = none) {limit : Nat}
    (watched : 0 < inv.verbose ∨ inv.stats = true → host.Writes limit) (clock : Clock) :
    let began := clock.read
    let ready := began.2.read
    let done := ready.2.read
    let report := (run limit words host screen directory environment input clock).map Outcome.report
    (1 ≤ task.settings.tapeSize ∧ task.settings.plain = inv.plain) ∧
    (∀ failure, task.machine host = .error failure →
      (task.Tells failure ∧
        report = some (({ failure := some failure } : Transcript).text screen task, none)) ∨
      ∃ cause, host.shortage? task.settings.tapeSize = some cause ∧
        failure = .loading (.shortage cause) ∧ failure.diagnostic? = none ∧
        report = some ("", some failure)) ∧
    (∀ machine, task.machine host = .ok machine →
      let course := machine.course limit
      report.isSome = course.ending.isSome ∧
      ∀ ending, course.ending = some ending →
        (∀ failure, ending.failure? = some failure → task.Tells failure) ∧
        ∃ trace, trace.map .ok =
            (if 0 < inv.verbose then Machine.traceLines 0 course.dispatched else []) ∧
          (∀ line ∈ trace, Text.Line line) ∧
          report = some (({
            trace
            failure := ending.failure?
            table := if inv.stats then
              some (Run.table machine.program.size (ready.1 - began.1) course.dispatched.length
                (if ending = .finished then some (done.1 - ready.1) else none))
              else none } : Transcript).text screen task, none)) := by
  intro began ready done report
  have set := (taskOf_of_options read read valid).1
  obtain ⟨given, script, tapeSize, sized, -, -, size, settings⟩ := Invocation.task_eq_ok_iff.1 set
  have feasible := Task.feasible_of_task set room
  have unlisted : task.settings.disassemble = false := by rw [settings, runs]
  have asked : 0 < task.settings.verbose ∨ task.settings.stats = true → host.Writes limit := by
    rw [settings]
    simpa using watched
  have performed : report = (task.perform limit host screen clock).map Outcome.report := by
    simp only [report, run, valid]
  refine ⟨⟨feasible.size, by rw [settings]⟩, fun failure refused => ?_, fun machine loaded => ?_⟩
  · rcases Engine.reportable_of_load refused room feasible.size with
      reportable | ⟨cause, rfl, short⟩
    · refine .inl ⟨Task.tells_of_reportable reportable, ?_⟩
      rw [performed, Task.perform_of_reportable screen unlisted refused reportable]
      rfl
    · refine .inr ⟨cause, short, rfl, rfl, ?_⟩
      rw [performed, Task.perform_of_shortage screen unlisted refused]
      rfl
  · cases goes : (machine.course limit).ending with
    | none =>
      rw [performed, Task.perform_of_unended screen unlisted feasible
        (fun traced => asked (.inl traced)) loaded goes]
      exact ⟨by rw [goes]; rfl, fun ending ended => by simp [goes] at ended⟩
    | some ending =>
      obtain ⟨trace, lines, performs⟩ :=
        Task.perform_of_ended screen unlisted feasible asked loaded goes clock
      rw [settings] at lines performs
      rw [performed, performs]
      refine ⟨by rw [goes]; rfl, fun last is => ?_⟩
      obtain rfl := Option.some.inj (goes.symm.trans is)
      refine ⟨fun failure raised => ?_, trace, by simpa using lines,
        Machine.line_of_traced lines, ?_⟩
      · cases ending with
        | finished => cases raised
        | faulted fault =>
          obtain rfl := Option.some.inj raised
          exact Task.tells_of_reportable
            (Engine.reportable_of_course loaded room feasible.fed goes)
      · simp only [Run.table_measured]
        rfl

/-- A tape that there is no room for is neither reported nor measured. -/
theorem huge_tape_is_left_uncaught :
    run 9 ["-t9223372036854775808", "a.bf", "--stats"] {} .captured (fun _ => .ok []) none [] {} =
        some { exitStatus := 1, uncaught := some (.loading (.shortage .index)) } ∧
      (Failure.loading (.shortage .index)).diagnostic? = none := by
  let task : Task := {
    settings := { tapeSize := 9223372036854775808, stats := true }
    file := "a.bf"
    source := []
    input := [] }
  have valid : taskOf ["-t9223372036854775808", "a.bf", "--stats"] {} .captured (fun _ => .ok [])
      none [] = .ok task := rfl
  have accepted : Program.ofSource (.bytes []) = .ok #[] :=
    Program.ofSource_eq_ok_iff.2 ⟨.stop, by decide, by decide⟩
  refine ⟨?_, rfl⟩
  rw [run, valid]
  exact Task.perform_of_shortage .captured rfl
    (Task.machine_of_shortage accepted (by decide) rfl) 9 {}

/-- A program that writes a byte and then leaves a tape of one cell, traced and measured. -/
theorem standard_error_is_composed_overflow :
    let inv : Invocation :=
      { tapeSize := some "1", verbose := 1, stats := true, operands := ["a.bf"] }
    let task : Task := {
      settings := { tapeSize := 1, verbose := 1, stats := true }
      file := "a.bf"
      source := [0x2b, 0x2e, 0x3e]
      input := [.bytes [7]] }
    Invocation.ofWords ["-vt1", "a.bf", "--stats"] = .ok inv ∧ inv.disassemble = false ∧
      taskOf ["-vt1", "a.bf", "--stats"] {} .captured (fun _ => .ok task.source) none [7] =
        .ok task ∧
      Host.shortage? {} task.source.length = none ∧ Host.Writes {} (9 : Nat) ∧
      ∀ clock, ∃ trace : List String, trace.length = 3 ∧
        (run 9 ["-vt1", "a.bf", "--stats"] {} .captured (fun _ => .ok task.source) none [7]
          clock).map Outcome.report = some (({
            trace
            failure := some (.running (.tapeOverflow 1 0))
            table := some (Run.table 3 (clock.read.2.read.1 - clock.read.1) 3 none) } :
              Transcript).text .captured task, none) := by
  intro inv task
  have read : Invocation.ofWords ["-vt1", "a.bf", "--stats"] = .ok inv := by decide
  have runs : inv.disassemble = false := rfl
  have valid : taskOf ["-vt1", "a.bf", "--stats"] {} .captured (fun _ => .ok task.source) none [7] =
      .ok task := rfl
  have room : Host.shortage? {} task.source.length = none := rfl
  have writes : Host.Writes {} (9 : Nat) := Host.writes_of_natAbs_le (by decide)
  have accepted : Program.ofSource (.bytes task.source) =
      .ok #[⟨.add, 1⟩, ⟨.output, 1⟩, ⟨.shiftRight, 1⟩] :=
    Program.ofSource_eq_ok_iff.2 ⟨.action .increment (.action .output (.action .moveRight .stop)),
      by decide, by decide⟩
  let machine : Machine := {
    program := #[⟨.add, 1⟩, ⟨.output, 1⟩, ⟨.shiftRight, 1⟩]
    tape := Tape.blank 1
    console := { pending := task.input } }
  have loaded : task.machine {} = .ok machine := by
    rw [Task.machine, Engine.load, Engine.compile, accepted]
    rfl
  refine ⟨read, runs, valid, room, writes, fun clock => ?_⟩
  obtain ⟨-, -, composed⟩ :=
    standard_error_is_composed read runs valid room (fun _ => writes) clock
  have ended : (machine.course 9).ending = some (.faulted (.tapeOverflow 1 0)) := rfl
  obtain ⟨-, trace, lines, -, report⟩ := (composed machine loaded).2 _ ended
  refine ⟨trace, ?_, report⟩
  have dispatched : (machine.course 9).dispatched.length = 3 := rfl
  simpa [inv, Machine.traceLines, dispatched] using congrArg List.length lines

end Command
end TapeVM
