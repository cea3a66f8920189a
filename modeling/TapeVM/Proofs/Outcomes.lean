import TapeVM.Command
import TapeVM.Proofs.Reports

/-! Outcomes: what a command leaves behind, for each way in which its script can end. A script is
refused, there is no room for the tape, or a machine is loaded and its course ends or goes on. With
a listing asked for, nothing is run. -/
namespace TapeVM

/-- What a session reports, in the order in which it does. -/
structure Transcript where
  trace : List String := []
  failure : Option Failure := none
  table : Option String := none

/-- What standard error shows of it. -/
def Transcript.text (t : Transcript) (screen : Screen) (task : Command.Task) : String :=
  let report (text : String) : String :=
    if task.settings.plain = true ∨ screen.errorTerminal = false then screen.strip (text ++ "\n")
    else text ++ "\n"
  task.settings.written (t.trace ++
    (t.failure.map fun failure => report (failure.report task.source task.file)).toList ++
    (t.table.map report).toList)

theorem Transcript.text_eq (t : Transcript) (screen : Screen) (task : Command.Task) :
    t.text screen task = task.settings.written (t.trace ++
      (t.failure.map fun failure => screen.renderError task.settings.plain
        (failure.report task.source task.file)).toList ++
      (t.table.map (screen.renderError task.settings.plain)).toList) := by
  have report (text : String) : screen.renderError task.settings.plain text =
      if task.settings.plain = true ∨ screen.errorTerminal = false then screen.strip (text ++ "\n")
      else text ++ "\n" := by
    simp [Screen.renderError, Screen.render]
  simp only [Transcript.text, report, funext report]

namespace Command

variable {host : Host}

theorem readTapeSize_pos {text : String} {size : Int} (read : readTapeSize host text = .ok size) :
    1 ≤ size := by
  rw [readTapeSize] at read
  split at read
  · cases read
  · split at read
    · cases read
    · cases read
      omega

theorem environmentTapeSize_pos {environment : Option String} {size : Int}
    (read : environmentTapeSize host environment = .ok size) : 1 ≤ size := by
  unfold environmentTapeSize at read
  split at read
  · cases read
    decide
  · cases read
    decide
  · exact readTapeSize_pos read

theorem tapeSizeOf_pos {option : Option String} {given : Option Int} {environment : Option String}
    {size : Int} (read : option.mapM (readTapeSize host) = .ok given)
    (sized : tapeSizeOf host given environment = .ok size) : 1 ≤ size := by
  cases given with
  | none => exact environmentTapeSize_pos sized
  | some number =>
    obtain rfl : number = size := Except.ok.inj sized
    cases option with
    | none => cases read
    | some text =>
      change some <$> readTapeSize host text = .ok (some number) at read
      cases outcome : readTapeSize host text with
      | error e =>
        rw [outcome] at read
        cases read
      | ok found =>
        rw [outcome] at read
        cases read
        exact readTapeSize_pos outcome

theorem openScript_of_ne {directory : Directory} {input source : List UInt8} {name file : String}
    {pending : List ReadResult} (named : name ≠ "-")
    (opened : openScript directory input name = .ok (file, source, pending)) :
    directory name = .ok source ∧ pending = (Console.ofBytes input).pending := by
  rw [openScript, if_neg named] at opened
  cases found : directory name with
  | error cause => simp [found] at opened
  | ok content =>
    simp only [found, Except.ok.injEq, Prod.mk.injEq] at opened
    exact ⟨by rw [opened.2.1], opened.2.2.symm⟩

theorem fed_of_openScript {directory : Directory} {input source : List UInt8} {name file : String}
    {pending : List ReadResult}
    (opened : openScript directory input name = .ok (file, source, pending)) :
    ∀ answer ∈ pending, answer.byte?.isSome := by
  by_cases named : name = "-"
  · rw [openScript, if_pos named] at opened
    cases opened
    simp
  · rw [(openScript_of_ne named opened).2]
    simp [Console.ofBytes, ReadResult.byte?]

/-- A command sets a task if the size of the tape can be read, and there is one script that can. -/
theorem Invocation.task_eq_ok_iff {inv : Invocation} {directory : Directory}
    {environment : Option String} {input : List UInt8} {task : Task} :
    inv.task host directory environment input = .ok task ↔ ∃ given script tapeSize,
      inv.tapeSize.mapM (readTapeSize host) = .ok given ∧ inv.operands = [script] ∧
      openScript directory input script = .ok (task.file, task.source, task.input) ∧
      tapeSizeOf host given environment = .ok tapeSize ∧
      task.settings = ⟨tapeSize, inv.verbose, inv.stats, inv.plain, inv.disassemble⟩ := by
  rw [Invocation.task]
  cases sized : inv.tapeSize.mapM (readTapeSize host) with
  | error e => simp [bind, Except.bind]
  | ok given =>
    rcases inv.operands with _ | ⟨script, extra⟩
    · simp [bind, Except.bind]
    cases opened : openScript directory input script with
    | error e => simp [bind, Except.bind, opened]
    | ok found =>
      obtain ⟨file, source, pending⟩ := found
      cases size : tapeSizeOf host given environment with
      | error e => simp [bind, Except.bind, opened, size]
      | ok tapeSize =>
        rcases extra with _ | ⟨first, others⟩
        · obtain ⟨settings, file', source', input'⟩ := task
          simp only [bind, Except.bind, opened, size, Except.ok.injEq, Task.mk.injEq,
            List.cons.injEq, and_true, exists_and_left, Prod.mk.injEq, exists_eq_left']
          exact ⟨fun ⟨settled, same⟩ => ⟨same, settled.symm⟩,
            fun ⟨same, settled⟩ => ⟨settled.symm, same⟩⟩
        · simp [bind, Except.bind, opened, size]

theorem taskOf_of_options {words words' : List String} {inv : Invocation} {verbose : Nat}
    {stats plain : Bool} (read : Invocation.ofWords words = .ok inv)
    (read' : Invocation.ofWords words' = .ok { inv with verbose, stats, plain }) {screen : Screen}
    {directory : Directory} {environment : Option String} {input : List UInt8} {task : Task}
    (valid : taskOf words host screen directory environment input = .ok task) :
    inv.task host directory environment input = .ok task ∧
      taskOf words' host screen directory environment input =
        .ok { task with settings := { task.settings with verbose, stats, plain } } := by
  rw [taskOf, read] at valid
  rw [taskOf, read']
  dsimp only at valid ⊢
  split at valid
  · cases valid
  · rename_i helpless
    have valid : inv.task host directory environment input = .ok task := by
      cases outcome : inv.task host directory environment input with
      | error e => simp [outcome, Except.mapError] at valid
      | ok found => simpa [outcome, Except.mapError] using valid
    obtain ⟨given, script, tapeSize, sized, operands, opened, size, settings⟩ :=
      Invocation.task_eq_ok_iff.1 valid
    have valid' : ({ inv with verbose, stats, plain } : Invocation).task host directory environment
          input =
        .ok { task with settings := { task.settings with verbose, stats, plain } } :=
      Invocation.task_eq_ok_iff.2
        ⟨given, script, tapeSize, sized, operands, opened, size, by rw [settings]⟩
    exact ⟨valid, by rw [if_neg helpless, valid']; rfl⟩

/-- What is left of a session that nothing has gone uncaught in. -/
theorem outcomeOf_eq {s : Session} (caught : s.uncaught = none)
    (writes : ∀ stats ∈ s.stats, ∀ n ∈ stats.numbers, s.host.Writes n) :
    outcomeOf s = {
      exitStatus := if s.failed then 1 else 0
      output := s.output
      errors := s.errors ++ s.settings.written ((s.stats.filter (!·.entries.isEmpty)).map fun stats =>
        s.screen.renderError s.settings.plain stats.table).toList } := by
  rw [outcomeOf, caught, Session.finalize]
  cases counted : s.stats with
  | none => simp [leave, caught]
  | some stats =>
    by_cases empty : stats.entries.isEmpty
    · simp [Option.filter, empty, leave, caught]
    · have written : stats.write s.host = .ok stats.table :=
        Host.write_of_writes (writes stats counted)
      simp [Option.filter, empty, leave, caught, written, Session.echoError_eq]

theorem outcomeOf_of_unmeasured {s : Session} (caught : s.uncaught = none)
    (unmeasured : ∀ stats ∈ s.stats, stats.entries = []) :
    outcomeOf s =
      { exitStatus := if s.failed then 1 else 0, output := s.output, errors := s.errors } := by
  rw [outcomeOf, caught, Session.finalize]
  cases counted : s.stats with
  | none => simp [leave, caught]
  | some stats => simp [leave, caught, unmeasured stats counted]

theorem unmeasured_start (settings : Settings) (host : Host) (screen : Screen)
    (pending : List ReadResult) (clock : Clock) :
    ∀ stats ∈ (Session.start settings host screen pending clock).stats, stats.entries = [] := by
  intro stats member
  rw [Session.start] at member
  split at member
  · obtain rfl := Option.some.inj member
    rfl
  · cases member

theorem outcomeOf_abort (s : Session) (failure : Failure) :
    outcomeOf (s.abort failure) =
      { exitStatus := 1, output := s.output, errors := s.errors, uncaught := some failure } := rfl

namespace Task

variable (screen : Screen) {task : Task}

def engine (task : Task) (host : Host) : Engine := { tapeSize := task.settings.tapeSize, host }

/-- The machine that a task runs, or the failure that refuses its script. -/
def machine (task : Task) (host : Host) : Except Failure Machine :=
  (task.engine host).load (.bytes task.source) (some task.file) none { pending := task.input }

theorem machine_of_shortage {program : Program}
    (accepted : Program.ofSource (.bytes task.source) = .ok program)
    (positive : 1 ≤ task.settings.tapeSize) {cause : Host.Shortage}
    (short : host.shortage? task.settings.tapeSize = some cause) :
    task.machine host = .error (.loading (.shortage cause)) := by
  have compiled : Engine.compile (.bytes task.source) (some task.file) = .ok program := by
    rw [Engine.compile, accepted]
    rfl
  have refused : Machine.load host program task.settings.tapeSize { pending := task.input } = _ :=
    Machine.load_of_shortage positive short program _
  simp only [machine, engine, Engine.load, compiled, Option.getD_none, refused]
  rfl

/-- A task that a command has set, for a script that the host has room for. -/
structure Feasible (host : Host) (task : Task) : Prop where
  room : host.shortage? task.source.length = none
  size : 1 ≤ task.settings.tapeSize
  fed : ∀ answer ∈ task.input, answer.byte?.isSome

theorem feasible_of_task {inv : Invocation} {directory : Directory} {environment : Option String}
    {input : List UInt8} (set : inv.task host directory environment input = .ok task)
    (room : host.shortage? task.source.length = none) : task.Feasible host := by
  obtain ⟨given, script, tapeSize, sized, -, opened, size, settings⟩ :=
    Invocation.task_eq_ok_iff.1 set
  refine ⟨room, ?_, fed_of_openScript opened⟩
  rw [settings]
  exact tapeSizeOf_pos sized size

theorem perform_of_reportable (runs : task.settings.disassemble = false) {failure : Failure}
    (refused : task.machine host = .error failure) (reportable : failure.Reportable host task.source)
    (limit : Nat) (clock : Clock) :
    task.perform limit host screen clock =
      some {
        exitStatus := 1
        errors := ({ failure := some failure } : Transcript).text screen task } := by
  let s := Session.start task.settings host screen task.input clock
  have executed : s.execute limit task.source task.file = _ :=
    Session.execute_of_refused runs refused
  have failed : s.readClock.2.fail failure task.source task.file = _ :=
    Session.fail_of_reportable reportable task.file
  have unmeasured : ∀ stats ∈ s.stats, stats.entries = [] :=
    unmeasured_start task.settings host screen task.input clock
  rw [perform, executed, Option.map_some, failed, outcomeOf_of_unmeasured, Transcript.text_eq]
  · simp [Session.echoError_eq, s, Session.start, Session.readClock]
  · rfl
  · exact unmeasured

theorem perform_of_shortage (runs : task.settings.disassemble = false) {cause : Host.Shortage}
    (refused : task.machine host = .error (.loading (.shortage cause))) (limit : Nat) (clock : Clock) :
    task.perform limit host screen clock =
      some { exitStatus := 1, uncaught := some (.loading (.shortage cause)) } := by
  let s := Session.start task.settings host screen task.input clock
  have executed : s.execute limit task.source task.file = _ :=
    Session.execute_of_refused runs refused
  rw [perform, executed, Option.map_some, Session.fail_of_shortage, outcomeOf_abort]
  rfl

/-- A script that is run. What is left is told by the course of its machine. -/
theorem perform_of_ended (runs : task.settings.disassemble = false) (feasible : task.Feasible host)
    {limit : Nat}
    (watched : 0 < task.settings.verbose ∨ task.settings.stats = true → host.Writes limit)
    {machine : Machine} (loaded : task.machine host = .ok machine) {ending : Run.Ending}
    (ended : (machine.course limit).ending = some ending) (clock : Clock) :
    let began := clock.read
    let ready := began.2.read
    let done := ready.2.read
    let course := machine.course limit
    ∃ trace, trace.map .ok =
        (if 0 < task.settings.verbose then Machine.traceLines 0 course.dispatched else []) ∧
      task.perform limit host screen clock = some {
        exitStatus := if ending = .finished then 0 else 1
        output := course.last.console.output
        errors := ({
          trace
          failure := ending.failure?
          table := if task.settings.stats then
            some (Run.measured machine.program.size (ready.1 - began.1) course.dispatched.length
              (if ending = .finished then some (done.1 - ready.1) else none)).table
            else none } : Transcript).text screen task } := by
  intro began ready done course
  let s := Session.start task.settings host screen task.input clock
  obtain ⟨last, completed, machine_eq, steps, trace⟩ := Run.exists_complete
    (fun traced => Engine.shown_of_load loaded feasible.room (watched (.inl traced))) ended
  have executed : s.execute limit task.source task.file = _ :=
    Session.execute_of_loaded runs loaded
  have reportable : ∀ failure ∈ ending.failure?, failure.Reportable host task.source := by
    intro failure raised
    cases ending with
    | finished => cases raised
    | faulted fault =>
      obtain rfl : .running fault = failure := Option.some.inj raised
      exact Engine.reportable_of_course loaded feasible.room feasible.fed ended
  let after := (s.prepared machine.program).conclude task.source task.file ready.1 last ending
  have concluded : after = _ := Session.conclude_eq reportable task.file ready.1 last
  have outcome : task.perform limit host screen clock = some (outcomeOf after) := by
    have started : (machine.start s.settings.verbose).complete limit = some (last, ending) :=
      completed
    rw [perform, executed, started]
    rfl
  let measured := Run.measured machine.program.size (ready.1 - began.1) course.dispatched.length
    (if ending = .finished then some (done.1 - ready.1) else none)
  have stats : after.stats = if task.settings.stats then some measured else none := by
    have prepared := Session.stats_prepared task.settings host screen task.input clock
      machine.program last ending (done.1 - ready.1)
    rw [steps] at prepared
    rw [concluded]
    exact prepared
  have caught : after.uncaught = none := by
    rw [concluded]
    rfl
  have keeps : after.host = host ∧ after.screen = screen ∧ after.settings = task.settings := by
    rw [concluded]
    exact ⟨rfl, rfl, rfl⟩
  have writes : ∀ stats ∈ after.stats, ∀ n ∈ stats.numbers, after.host.Writes n := by
    intro counted member n shown
    rw [stats] at member
    obtain ⟨asked, same⟩ := Option.ite_none_right_eq_some.1 member
    obtain rfl := Option.some.inj same
    rw [Run.numbers_measured, List.mem_cons, List.mem_singleton] at shown
    rw [keeps.1]
    rcases shown with rfl | rfl
    · obtain ⟨program, cells, sound, -, fits, -⟩ := Engine.sound_of_load loaded feasible.room
      rw [sound.program]
      exact Host.writes_of_room fits.size (Nat.le_refl _)
    · exact (watched (.inr asked)).of_natCast_le (machine.length_dispatched_le limit)
  -- The rows of a run are never empty, so the table is shown whenever there are statistics.
  have kept : after.stats.filter (!·.entries.isEmpty) = after.stats := by
    rw [stats]
    split
    · rfl
    · rfl
  refine ⟨last.trace.toList, trace, outcome.trans (congrArg some ?_)⟩
  rw [outcomeOf_eq caught writes, kept, stats, keeps.2.1, keeps.2.2, Outcome.mk.injEq]
  refine ⟨?_, ?_, ?_, rfl⟩
  · rw [concluded]
    cases ending <;> rfl
  · rw [concluded]
    change [] ++ last.machine.console.output = _
    rw [machine_eq, List.nil_append]
    exact Console.output_flush _
  · have errors : after.errors = "" ++ task.settings.written last.trace.toList ++
        task.settings.written (ending.failure?.map fun failure =>
          screen.renderError task.settings.plain (failure.report task.source task.file)).toList := by
      rw [concluded]
      rfl
    rw [errors, String.empty_append, Transcript.text_eq, Settings.written_append,
      Settings.written_append]
    split
    · rfl
    · rfl

theorem perform_of_unended (runs : task.settings.disassemble = false) (feasible : task.Feasible host)
    {limit : Nat} (watched : 0 < task.settings.verbose → host.Writes limit) {machine : Machine}
    (loaded : task.machine host = .ok machine) (goes : (machine.course limit).ending = none)
    (clock : Clock) : task.perform limit host screen clock = none := by
  let s := Session.start task.settings host screen task.input clock
  have executed : s.execute limit task.source task.file = _ :=
    Session.execute_of_loaded runs loaded
  have started : (machine.start s.settings.verbose).complete limit = none :=
    Run.complete_eq_none
      (fun traced => Engine.shown_of_load loaded feasible.room (watched traced)) goes
  rw [perform, executed, started]
  rfl

/-- A script that is only listed. It takes no steps and no input. -/
theorem perform_of_listing (listed : task.settings.disassemble = true)
    (room : host.shortage? task.source.length = none) (limit : Nat) (clock : Clock) :
    task.perform limit host screen clock =
      some (match Engine.disassemble host (.bytes task.source) (some task.file) with
        | .error failure =>
          { exitStatus := 1, errors := ({ failure := some failure } : Transcript).text screen task }
        | .ok text =>
          { exitStatus := 0, output := screen.renderOutput task.settings.plain text }) := by
  let s := Session.start task.settings host screen task.input clock
  have executed : s.execute limit task.source task.file = _ :=
    Session.execute_listing listed room limit task.file
  have compiled : s.compile task.source task.file = _ :=
    Session.compile_listing listed room task.file
  have here : s.host = host := rfl
  have unmeasured : ∀ stats ∈ s.stats, stats.entries = [] :=
    unmeasured_start task.settings host screen task.input clock
  rw [perform, executed, compiled, Option.map_some, here]
  cases Engine.disassemble host (.bytes task.source) (some task.file) with
  | error failure =>
    dsimp only
    rw [outcomeOf_of_unmeasured, Transcript.text_eq]
    · simp [Session.echoError_eq, s, Session.start, Session.readClock]
    · rfl
    · exact unmeasured
  | ok text =>
    dsimp only
    rw [outcomeOf_of_unmeasured]
    · rfl
    · rfl
    · exact unmeasured

end Task
end Command
end TapeVM
