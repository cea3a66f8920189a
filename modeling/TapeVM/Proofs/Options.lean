import TapeVM.Proofs.Outcomes

/-! Options: what the command line options for the trace, the statistics and the colours can change.
They decide about standard error only; standard output and the exit status are given by the script,
the size of the tape and the input. -/
namespace TapeVM

/-- What a run has written, and the failure it raised, if it raised one. -/
structure Engine.Result where
  output : List UInt8
  failure : Option Failure

def Engine.resultOf : Except Failure (Run × Run.Ending) → Result
  | .error failure => ⟨[], some failure⟩
  | .ok (run, ending) => ⟨run.machine.console.output, ending.failure?⟩

/-- Colours that are not to be shown are taken out of each text that is written, which is as if they
were taken out of all of them together. -/
theorem Transcript.text_plain {t : Transcript} {screen : Screen} {task : Command.Task}
    (captures : screen.Captures) (coloured : task.settings.plain = false)
    (whole : ∀ line ∈ t.trace, Text.Whole line) :
    t.text screen { task with settings := { task.settings with plain := true } } =
      Text.withoutEscapes .colour (t.text screen task) := by
  have report : screen.renderError true = screen.renderError false := funext fun text => by
    rw [captures.renderError_eq, captures.renderError_eq]
  have whole_report (text : String) : Text.Whole (screen.renderError false text) := by
    rw [captures.renderError_eq]
    exact captures.whole text
  simp only [text_eq, Settings.written, coloured, report]
  have shown : ({ task.settings with plain := true } : Settings).shown =
      Text.withoutEscapes .colour := rfl
  have unchanged : task.settings.shown = id := funext fun text => by simp [Settings.shown, coloured]
  rw [shown, unchanged, List.map_id, Text.withoutEscapes_join Text.EscapeForm.inline_colour]
  intro line member
  simp only [List.mem_append, Option.mem_toList, Option.map_eq_some_iff, or_assoc] at member
  rcases member with traced | ⟨failure, -, rfl⟩ | ⟨table, -, rfl⟩
  · exact whole line traced
  · exact whole_report _
  · exact whole_report _

namespace Command

/-- What a command does apart from its reports: its output and its exit status. -/
def Outcome.effect (outcome : Outcome) : List UInt8 × Nat := (outcome.output, outcome.exitStatus)

/-- The output of a run, and the exit status that tells whether it raised a failure. -/
def effectOf (result : Engine.Result) : List UInt8 × Nat :=
  (result.output, if result.failure.isSome then 1 else 0)

namespace Task

variable {host : Host} {screen : Screen} {task : Task} {limit : Nat}

/-- What the engine gives on the script of a task and its input, if nothing is reported. -/
def result (task : Task) (host : Host) (limit : Nat) : Option Engine.Result :=
  (Engine.run limit (task.engine host) (.bytes task.source) (some task.file) none
    { pending := task.input } 0 none).map fun answer => Engine.resultOf answer.1

theorem result_of_refused {failure : Failure} (refused : task.machine host = .error failure)
    (limit : Nat) : task.result host limit = some ⟨[], some failure⟩ := by
  have refused : (task.engine host).load _ _ _ _ = .error failure := refused
  rw [result, Engine.run, refused]
  rfl

theorem result_of_loaded {machine : Machine} (loaded : task.machine host = .ok machine)
    (limit : Nat) :
    task.result host limit = (machine.course limit).ending.map fun ending =>
      ⟨(machine.course limit).last.console.output, ending.failure?⟩ := by
  have loaded : (task.engine host).load _ _ _ _ = .ok machine := loaded
  have untraced : 0 < (0 : Int) → Machine.Shown 0 (machine.course limit).dispatched :=
    fun absurd => (Int.lt_irrefl 0 absurd).elim
  rw [result, Engine.run, loaded]
  dsimp only
  rw [Machine.run]
  cases ended : (machine.course limit).ending with
  | none =>
    rw [Run.complete_eq_none untraced ended]
    rfl
  | some ending =>
    obtain ⟨last, completed, machine_eq, -, -⟩ := Run.exists_complete untraced ended
    have output : last.machine.console.output = (machine.course limit).last.console.output := by
      rw [machine_eq]
      exact Console.output_flush _
    rw [completed]
    simp [Engine.resultOf, output]

/-- A task does what the engine gives. -/
theorem perform_run (runs : task.settings.disassemble = false) (feasible : task.Feasible host)
    (watched : 0 < task.settings.verbose ∨ task.settings.stats = true → host.Writes limit)
    (clock : Clock) :
    (task.perform limit host screen clock).map Outcome.effect =
      (task.result host limit).map effectOf := by
  cases loaded : task.machine host with
  | error failure =>
    rw [result_of_refused loaded]
    rcases Engine.reportable_of_load loaded feasible.room feasible.size with
      reportable | ⟨cause, rfl, -⟩
    · rw [perform_of_reportable screen runs loaded reportable]
      rfl
    · rw [perform_of_shortage screen runs loaded]
      rfl
  | ok machine =>
    rw [result_of_loaded loaded]
    cases ended : (machine.course limit).ending with
    | none =>
      rw [perform_of_unended screen runs feasible (fun traced => watched (.inl traced)) loaded ended]
      rfl
    | some ending =>
      obtain ⟨trace, -, performs⟩ :=
        perform_of_ended screen runs feasible watched loaded ended clock
      rw [performs]
      cases ending <;> rfl

theorem diagnostic_of_result (feasible : task.Feasible host) {result : Engine.Result}
    {failure : Failure} (answered : task.result host limit = some result)
    (raised : result.failure = some failure) : failure.diagnostic?.isSome ∨
      ∃ cause, failure = .loading (.shortage cause) ∧
        host.shortage? task.settings.tapeSize = some cause := by
  cases loaded : task.machine host with
  | error other =>
    rw [result_of_refused loaded] at answered
    obtain rfl := Option.some.inj answered
    obtain rfl := Option.some.inj raised
    exact (Engine.reportable_of_load loaded feasible.room feasible.size).imp_left (·.told)
  | ok machine =>
    rw [result_of_loaded loaded, Option.map_eq_some_iff] at answered
    obtain ⟨ending, ended, rfl⟩ := answered
    cases ending with
    | finished => cases raised
    | faulted fault =>
      obtain rfl := Option.some.inj raised
      exact .inl (Engine.reportable_of_course loaded feasible.room feasible.fed ended).told

theorem listing_status (room : host.shortage? task.source.length = none)
    (listed : task.settings.disassemble = true) (limit : Nat) (clock : Clock) {outcome : Outcome}
    (performs : task.perform limit host screen clock = some outcome) :
    outcome.exitStatus = 1 ↔
      ∃ failure, Engine.compile (.bytes task.source) (some task.file) = .error failure := by
  rw [perform_of_listing screen listed room] at performs
  obtain rfl := Option.some.inj performs
  cases compiled : Engine.compile (.bytes task.source) (some task.file) with
  | error failure => simp [Engine.disassemble, compiled]
  | ok program =>
    obtain ⟨text, found⟩ := Engine.exists_list compiled room
    simp [Engine.disassemble, compiled, found]

/-- Other options for the reports change neither the exit status nor, unless a listing is shown on a
terminal, the output. -/
theorem perform_alike (feasible : task.Feasible host) {verbose : Int} {stats plain : Bool}
    (watched : (0 < task.settings.verbose ∨ task.settings.stats = true) ∨
      (0 < verbose ∨ stats = true) → host.Writes limit) (clock clock' : Clock) :
    let other : Task := { task with settings := { task.settings with verbose, stats, plain } }
    let here := task.perform limit host screen clock
    let there := other.perform limit host screen clock'
    here.map Outcome.exitStatus = there.map Outcome.exitStatus ∧
      ((task.settings.disassemble = true → screen.outputTerminal = true →
        plain = task.settings.plain) → here.map Outcome.output = there.map Outcome.output) := by
  intro other here there
  by_cases runs : task.settings.disassemble = false
  · have runs' : other.settings.disassemble = false := runs
    have feasible' : other.Feasible host := ⟨feasible.room, feasible.size, feasible.fed⟩
    have same : here.map Outcome.effect = there.map Outcome.effect :=
      (perform_run runs feasible (fun asked => watched (.inl asked)) clock).trans
        (perform_run runs' feasible' (fun asked => watched (.inr asked)) clock').symm
    have status := congrArg (Option.map Prod.snd) same
    have output := congrArg (Option.map Prod.fst) same
    rw [Option.map_map, Option.map_map] at status output
    exact ⟨status, fun _ => output⟩
  · have listed : task.settings.disassemble = true := by simpa using runs
    have listed' : other.settings.disassemble = true := listed
    have room' : host.shortage? other.source.length = none := feasible.room
    have here_eq : here = _ := perform_of_listing screen listed feasible.room limit clock
    have there_eq : there = _ := perform_of_listing screen listed' room' limit clock'
    rw [here_eq, there_eq]
    cases Engine.disassemble host (.bytes task.source) (some task.file) with
    | error failure => exact ⟨rfl, fun _ => rfl⟩
    | ok text =>
      refine ⟨rfl, fun alike => congrArg some ?_⟩
      change screen.renderOutput task.settings.plain text = screen.renderOutput plain text
      by_cases terminal : screen.outputTerminal = true
      · rw [alike listed terminal]
      · simp [Screen.renderOutput, Screen.render, terminal]

/-- Without colours, what is written to standard error is the same without colours. -/
theorem perform_plain (coloured : task.settings.plain = false) (captures : screen.Captures)
    (feasible : task.Feasible host)
    (watched : 0 < task.settings.verbose ∨ task.settings.stats = true → host.Writes limit)
    (clock : Clock) :
    (({ task with settings := { task.settings with plain := true } } : Task).perform limit host
      screen clock).map Outcome.errors =
        (task.perform limit host screen clock).map fun outcome =>
          Text.withoutEscapes .colour outcome.errors := by
  let bare : Task := { task with settings := { task.settings with plain := true } }
  have feasible' : bare.Feasible host := ⟨feasible.room, feasible.size, feasible.fed⟩
  have empty : Text.withoutEscapes .colour "" = "" := by simp [Text.withoutEscapes]
  change (bare.perform limit host screen clock).map Outcome.errors = _
  by_cases runs : task.settings.disassemble = false
  · have runs' : bare.settings.disassemble = false := runs
    cases loaded : task.machine host with
    | error failure =>
      have loaded' : bare.machine host = .error failure := loaded
      rcases Engine.reportable_of_load loaded feasible.room feasible.size with
        reportable | ⟨cause, rfl, -⟩
      · rw [perform_of_reportable screen runs loaded reportable,
          perform_of_reportable screen runs' loaded' reportable]
        exact congrArg some (Transcript.text_plain captures coloured (by simp))
      · rw [perform_of_shortage screen runs loaded, perform_of_shortage screen runs' loaded']
        exact congrArg some empty.symm
    | ok machine =>
      have loaded' : bare.machine host = .ok machine := loaded
      cases ended : (machine.course limit).ending with
      | none =>
        rw [
          perform_of_unended screen runs feasible (fun traced => watched (.inl traced)) loaded
            ended,
          perform_of_unended screen runs' feasible' (fun traced => watched (.inl traced)) loaded'
            ended]
        rfl
      | some ending =>
        obtain ⟨trace, lines, performs⟩ :=
          perform_of_ended screen runs feasible watched loaded ended clock
        obtain ⟨trace', lines', performs'⟩ :=
          perform_of_ended screen runs' feasible' watched loaded' ended clock
        obtain rfl : trace' = trace :=
          List.map_injective_iff.2 (fun _ _ => Except.ok.inj) (lines'.trans lines.symm)
        rw [performs, performs']
        exact congrArg some (Transcript.text_plain captures coloured
          fun line member => (Machine.line_of_traced lines line member).whole)
  · have listed : task.settings.disassemble = true := by simpa using runs
    have listed' : bare.settings.disassemble = true := listed
    have room' : host.shortage? bare.source.length = none := feasible.room
    have same : Engine.disassemble host (.bytes bare.source) (some bare.file) =
        Engine.disassemble host (.bytes task.source) (some task.file) := rfl
    rw [perform_of_listing screen listed feasible.room, perform_of_listing screen listed' room', same]
    cases Engine.disassemble host (.bytes task.source) (some task.file) with
    | error failure => exact congrArg some (Transcript.text_plain captures coloured (by simp))
    | ok text => exact congrArg some empty.symm

end Task

/-- The trace, the statistics and the colours are a matter of standard error. Of two command lines
that set the same task with other options for these, both exit with the same status and write the
same output, unless it is a listing on a terminal. If the program is run, these are what the engine
gives on the source and the input, of which a script that was read from there leaves nothing; the
failure, if there is one, has a diagnostic, or there was no room for the tape. If it is listed,
neither steps nor input are used. Without colours, standard error is what it would have been,
without the colours, provided that it is captured. The host has room for the script, and if the
program is watched, it can write the number of the steps. -/
theorem options_change_reports_only {words words' : List String} {inv : Invocation}
    {verbose : Nat} {stats plain : Bool} (read : Invocation.ofWords words = .ok inv)
    (read' : Invocation.ofWords words' = .ok { inv with verbose, stats, plain }) {host : Host}
    {screen : Screen} {directory : Directory} {environment : Option String} {input : List UInt8}
    {task : Task} (valid : taskOf words host screen directory environment input = .ok task)
    (room : host.shortage? task.source.length = none) :
    (∃ script, inv.operands = [script] ∧ 1 ≤ task.settings.tapeSize ∧
      (script = "-" → task.source = input ∧ task.input = []) ∧
      (script ≠ "-" → directory script = .ok task.source ∧
        task.input = (Console.ofBytes input).pending)) ∧
    (∀ (limit : Nat) clock clock',
      ((0 < inv.verbose ∨ inv.stats = true) ∨ (0 < verbose ∨ stats = true) → host.Writes limit) →
      let here := run limit words host screen directory environment input clock
      let there := run limit words' host screen directory environment input clock'
      here.map Outcome.exitStatus = there.map Outcome.exitStatus ∧
        ((inv.disassemble = true → screen.outputTerminal = true → plain = inv.plain) →
          here.map Outcome.output = there.map Outcome.output)) ∧
    (inv.disassemble = false → ∀ (limit : Nat) clock,
      (0 < inv.verbose ∨ inv.stats = true → host.Writes limit) →
      (run limit words host screen directory environment input clock).map Outcome.effect =
        (task.result host limit).map effectOf) ∧
    (∀ limit result failure, task.result host limit = some result →
      result.failure = some failure → failure.diagnostic?.isSome ∨
        ∃ cause, failure = .loading (.shortage cause) ∧
          host.shortage? task.settings.tapeSize = some cause) ∧
    (inv.disassemble = true → ∀ clock, ∃ outcome : Outcome,
      (∀ limit, run limit words host screen directory environment input clock = some outcome) ∧
      (∀ limit other,
        ({ task with input := other } : Task).perform limit host screen clock = some outcome) ∧
      (outcome.exitStatus = 1 ↔
        ∃ failure, Engine.compile (.bytes task.source) (some task.file) = .error failure)) ∧
    (screen.Captures → verbose = inv.verbose → stats = inv.stats → inv.plain = false →
      plain = true → ∀ (limit : Nat) clock, (0 < inv.verbose ∨ inv.stats = true → host.Writes limit) →
      (run limit words' host screen directory environment input clock).map Outcome.errors =
        (run limit words host screen directory environment input clock).map fun outcome =>
          Text.withoutEscapes .colour outcome.errors) := by
  obtain ⟨set, valid'⟩ := taskOf_of_options read read' valid
  obtain ⟨given, script, tapeSize, sized, operands, opened, size, settings⟩ :=
    Invocation.task_eq_ok_iff.1 set
  have feasible := Task.feasible_of_task set room
  have performed (limit : Nat) (clock : Clock) :
      run limit words host screen directory environment input clock =
        task.perform limit host screen clock := by
    rw [run, valid]
  have performed' (limit : Nat) (clock : Clock) :
      run limit words' host screen directory environment input clock =
        ({ task with settings := { task.settings with verbose, stats, plain } } : Task).perform
          limit host screen clock := by
    rw [run, valid']
  have listed : task.settings.disassemble = inv.disassemble := by rw [settings]
  have asked : (0 < task.settings.verbose ∨ task.settings.stats = true) =
      (0 < inv.verbose ∨ inv.stats = true) := by
    rw [settings]
    simp
  refine ⟨⟨script, operands, feasible.size, ?_, ?_⟩, ?_, ?_, ?_, ?_, ?_⟩
  · rintro rfl
    obtain ⟨-, rest⟩ := Prod.mk.inj (Except.ok.inj opened)
    obtain ⟨source, pending⟩ := Prod.mk.inj rest
    exact ⟨source.symm, pending.symm⟩
  · intro named
    exact openScript_of_ne named opened
  · intro limit clock clock' watched
    rw [performed, performed', ← listed, show inv.plain = task.settings.plain by rw [settings]]
    refine Task.perform_alike feasible ?_ clock clock'
    rw [asked]
    simpa using watched
  · intro runs limit clock watched
    rw [performed, Task.perform_run (listed.trans runs) feasible (by rwa [asked])]
  · intro limit result failure answered raised
    exact Task.diagnostic_of_result feasible answered raised
  · intro listing clock
    have listing := listed.trans listing
    refine ⟨_, fun limit => (performed limit clock).trans
      (Task.perform_of_listing screen listing room limit clock), fun limit other => ?_, ?_⟩
    · have listing' : ({ task with input := other } : Task).settings.disassemble = true := listing
      exact Task.perform_of_listing screen listing' room limit clock
    · exact Task.listing_status room listing 0 clock
        (Task.perform_of_listing screen listing room 0 clock)
  · rintro captures rfl rfl coloured rfl limit clock watched
    rw [performed, performed', ← Task.perform_plain (by rw [settings, coloured]) captures feasible
      (by rwa [asked]), settings]

/-- A program that writes a byte and then leaves a tape of one cell. -/
theorem options_change_reports_only_overflow :
    let inv : Invocation := { tapeSize := some "1", operands := ["a.bf"] }
    let task : Task := {
      settings := { tapeSize := 1 }
      file := "a.bf"
      source := [0x2b, 0x2e, 0x3e]
      input := [.bytes [7]] }
    let outcome (words : List String) (clock : Clock) :=
      run 9 words {} .captured (fun _ => .ok task.source) none [7] clock
    Invocation.ofWords ["-t1", "a.bf"] = .ok inv ∧
      Invocation.ofWords ["-vpt1", "a.bf", "--stats"] =
        .ok { inv with verbose := 1, stats := true, plain := true } ∧
      taskOf ["-t1", "a.bf"] {} .captured (fun _ => .ok task.source) none [7] = .ok task ∧
      Host.shortage? {} task.source.length = none ∧
      ∀ clock, (outcome ["-vpt1", "a.bf", "--stats"] clock).map Outcome.exitStatus = some 1 ∧
        (outcome ["-vpt1", "a.bf", "--stats"] clock).map Outcome.output = some [1] ∧
        (outcome ["-pt1", "a.bf"] clock).map Outcome.errors =
          (outcome ["-t1", "a.bf"] clock).map fun outcome =>
            Text.withoutEscapes .colour outcome.errors := by
  intro inv task outcome
  have read : Invocation.ofWords ["-t1", "a.bf"] = .ok inv := by decide
  have read' : Invocation.ofWords ["-vpt1", "a.bf", "--stats"] =
      .ok { inv with verbose := 1, stats := true, plain := true } := by decide
  have plainly : Invocation.ofWords ["-pt1", "a.bf"] =
      .ok { inv with verbose := 0, stats := false, plain := true } := by decide
  have valid : taskOf ["-t1", "a.bf"] {} .captured (fun _ => .ok task.source) none [7] = .ok task :=
    rfl
  have room : Host.shortage? {} task.source.length = none := rfl
  have accepted : Program.ofSource (.bytes task.source) =
      .ok #[⟨.add, 1⟩, ⟨.output, 1⟩, ⟨.shiftRight, 1⟩] :=
    Program.ofSource_eq_ok_iff.2 ⟨.action .increment (.action .output (.action .moveRight .stop)),
      by decide, by decide⟩
  obtain ⟨-, same, runs, -⟩ := options_change_reports_only read read' valid room
  obtain ⟨-, -, -, -, -, filtered⟩ := options_change_reports_only read plainly valid room
  refine ⟨read, read', valid, room, fun clock => ?_⟩
  have here := runs rfl 9 clock fun watched => by simp [inv] at watched
  have effect : (task.result {} 9).map effectOf = some ([1], 1) := by
    rw [Task.result, Engine.run, Engine.load, Engine.compile, accepted]
    rfl
  rw [effect] at here
  obtain ⟨status, output⟩ := same 9 clock clock fun _ => Host.writes_of_natAbs_le (by decide)
  obtain ⟨outcome, performs, left⟩ := Option.map_eq_some_iff.1 here
  obtain ⟨written, exits⟩ := Prod.mk.inj left
  rw [performs] at status output
  exact ⟨status.symm.trans (congrArg some exits),
    (output fun listing => by cases listing).symm.trans (congrArg some written),
    filtered Screen.captures_captured rfl rfl rfl rfl 9 clock fun watched => by simp [inv] at watched⟩

open Text (Style EscapeForm)

theorem head?_renderOutput (screen : Screen) (strips : screen.strip = Text.withoutEscapes .control)
    (terminal : screen.outputTerminal = true) (rest : String) :
    (screen.renderOutput false ("\x1b[90m0" ++ rest)).head? = some 0x1b ∧
      (screen.renderOutput true ("\x1b[90m0" ++ rest)).head? = some 0x30 := by
  have split : ("\x1b[90m0" ++ rest ++ "\n").toList =
      '\x1b' :: '[' :: '9' :: '0' :: 'm' :: '0' :: (rest ++ "\n").toList := by simp
  have removed : EscapeForm.control.remove ("\x1b[90m0" ++ rest ++ "\n").toList =
      '0' :: EscapeForm.control.remove (rest ++ "\n").toList := by
    rw [split, EscapeForm.remove_of_after? (by rfl),
      EscapeForm.remove_cons_of_after? (EscapeForm.after?_of_ne (by decide) _)]
  constructor
  · rw [Screen.renderOutput, Screen.render, terminal]
    simp only [Bool.not_true, Bool.or_false, Bool.false_eq_true, if_false]
    rw [split]
    rfl
  · rw [Screen.renderOutput, Screen.render, terminal, strips]
    simp only [Bool.not_true, Bool.or_false, if_true]
    rw [Text.toList_withoutEscapes, removed]
    rfl

theorem listing_of_increment : ∃ rest,
    Engine.disassemble {} (.bytes [0x2b]) (some "a.bf") = .ok ("\x1b[90m0" ++ rest) := by
  have accepted : Program.ofSource (.bytes [0x2b]) = .ok #[⟨.add, 1⟩] :=
    Program.ofSource_eq_ok_iff.2 ⟨.action .increment .stop, by decide, by decide⟩
  have listable : ∀ i ∈ (#[⟨.add, 1⟩] : Program).toList, Program.Listable {} i := by
    intro i member
    obtain rfl := List.mem_singleton.1 member
    exact ⟨rfl, Host.writes_of_natAbs_le (by decide)⟩
  have zero : Decimal.natural 0 = "0" := congrArg String.ofList (Decimal.digits_of_lt (by decide))
  have number : Program.rowNumber #[⟨.add, 1⟩] 0 = "0" := by
    have last : (#[⟨.add, 1⟩] : Program).size - 1 = 0 := rfl
    rw [Program.rowNumber, last, zero]
    rfl
  refine ⟨" :\x1b[0m  " ++ Program.rowColumns ⟨.add, 1⟩ "Add" ++ "\n", ?_⟩
  rw [Engine.disassemble, Engine.compile, accepted]
  simp only [Except.mapError]
  rw [Engine.list, Program.listing_of_writes (Host.writes_of_natAbs_le (by decide)),
    Program.mapM_listingRow _ listable]
  change Except.ok (String.join [Program.paintedRow #[⟨.add, 1⟩] 0 ⟨.add, 1⟩ "Add"]) = _
  rw [Program.paintedRow, number]
  rw [← String.append_assoc, ← String.append_assoc]
  simp [Style.paint, Style.opening, Style.codes, Style.escape, Style.reset]

theorem mem_report_of_control (file : String) (clear : 'J' ∉ file.toList) :
    let source : List UInt8 := [0x1b, 0x5b, 0x32, 0x4a, 0x0a, 0x5d, 0x5d]
    let failure : Failure := .assembling (.unexpectedClosing ⟨2, 2⟩) (some file)
    let report := failure.report source file ++ "\n"
    'J' ∈ (Text.withoutEscapes .colour report).toList ∧
      'J' ∉ (Text.withoutEscapes .control report).toList := by
  intro source failure report
  have numerals : Decimal.natural 1 = "1" ∧ Decimal.natural 2 = "2" :=
    ⟨congrArg String.ofList (Decimal.digits_of_lt (by decide)),
      congrArg String.ofList (Decimal.digits_of_lt (by decide))⟩
  have rows : Excerpt.rows 2 2 1 (.bytes source) =
      [⟨1, ['\x1b', '[', '2', 'J'], false, none⟩,
        ⟨2, [']', ']'], true, some ⟨[']'], [']'], []⟩⟩] := by decide
  let front := Style.alarm.paint "error:" ++ " " ++ failure.message ++ "\n" ++ Excerpt.header file 2
  let row := Style.faint.paint "    1 |" ++ " " ++ "\x1b[2J"
  let behind :=
    Style.bright.paint "    2 |" ++ " " ++ "]" ++ Style.highlight.paint "]" ++ "\n" ++ "\n"
  have split : report = front ++ "\n" ++ (row ++ "\n" ++ behind) := by
    have width : "]".length = 1 := rfl
    have padded : Text.padLeft 5 "1" = "    1" ∧ Text.padLeft 5 "2" = "    2" := by decide
    simp only [report, Failure.report, Failure.excerpt, failure, Failure.bracket?,
      Assembly.Error.bracket?, Excerpt.text, width, rows]
    simp [front, row, behind, Excerpt.Row.text, Excerpt.Highlight.text, numerals, failure, padded,
      ← String.append_assoc]
  have kept : 'J' ∈ EscapeForm.colour.remove row.toList := by
    have cut : row.toList = (Style.faint.paint "    1 |").toList ++ ([' '] ++
        '\x1b' :: (['[', '2', 'J'] ++ [])) := by decide
    rw [cut, Text.remove_paint .faint (by decide), EscapeForm.remove_append_of_clear _ (by decide),
      EscapeForm.remove_cons_of_after? (by rfl), EscapeForm.remove_append_of_clear _ (by decide)]
    simp
  have removed : 'J' ∉ EscapeForm.control.remove row.toList := by
    have cut : row.toList = '\x1b' :: '[' :: '9' :: '0' :: 'm' :: ("    1 |".toList ++
        '\x1b' :: '[' :: '0' :: 'm' :: ([' '] ++ ['\x1b', '[', '2', 'J'])) := by decide
    rw [cut, EscapeForm.remove_of_after? (by rfl), EscapeForm.remove_append_of_clear _ (by decide),
      EscapeForm.remove_of_after? (by rfl), EscapeForm.remove_append_of_clear _ (by decide),
      EscapeForm.remove_of_after? (by rfl)]
    simp
  have absent : 'J' ∉ front.toList ∧ 'J' ∉ behind.toList := by
    have message : failure.message =
        "unexpected closing delimiter ']' at " ++ ("2" ++ ":" ++ "2") := by
      rw [← numerals.2]
      rfl
    have header : Excerpt.header file 2 =
        Style.bright.paint ("  File \"" ++ file ++ "\", line " ++ "2") := by
      rw [← numerals.2]
      rfl
    constructor
    · simp only [front, message, header, Style.paint, String.toList_append, List.mem_append, not_or]
      simp [clear, Style.opening, Style.codes, Style.escape, Style.reset]
    · simp [behind, Style.paint, Style.opening, Style.codes, Style.escape, Style.reset]
  rw [split, Text.mem_withoutEscapes_lines Text.EscapeForm.inline_colour,
    Text.mem_withoutEscapes_lines Text.EscapeForm.inline_control]
  refine ⟨.inr (.inl kept), ?_⟩
  rintro (first | line | last | feed)
  · exact absent.1 (EscapeForm.mem_of_mem_remove first)
  · exact removed line
  · exact absent.2 (EscapeForm.mem_of_mem_remove last)
  · cases feed

/-- A tape that there is no room for makes a command fail without a diagnostic. On a terminal plain
listings differ from others, and plain reports are more than those without their colours. -/
theorem results_depend_on_room_and_terminals :
    let wide : Screen := { Screen.captured with outputTerminal := true, errorTerminal := true }
    let control : List UInt8 := [0x1b, 0x5b, 0x32, 0x4a, 0x0a, 0x5d, 0x5d]
    let clock : Clock := {}
    (run 9 ["-t9223372036854775808", "a.bf"] {} .captured (fun _ => .ok []) none [] clock =
        some { exitStatus := 1, uncaught := some (.loading (.shortage .index)) } ∧
      (Failure.loading (.shortage .index)).diagnostic? = none) ∧
    (run 9 ["-d", "a.bf"] {} wide (fun _ => .ok [0x2b]) none [] clock).map Outcome.output ≠
      (run 9 ["-dp", "a.bf"] {} wide (fun _ => .ok [0x2b]) none [] clock).map Outcome.output ∧
    (run 9 ["-p", "a.bf"] {} wide (fun _ => .ok control) none [] clock).map Outcome.errors ≠
      (run 9 ["a.bf"] {} wide (fun _ => .ok control) none [] clock).map fun outcome =>
        Text.withoutEscapes .colour outcome.errors := by
  intro wide control clock
  refine ⟨⟨?_, rfl⟩, ?_, ?_⟩
  · let task : Task :=
      { settings := { tapeSize := 9223372036854775808 }, file := "a.bf", source := [], input := [] }
    have valid : taskOf ["-t9223372036854775808", "a.bf"] {} .captured (fun _ => .ok []) none [] =
        .ok task := rfl
    have accepted : Program.ofSource (.bytes []) = .ok #[] :=
      Program.ofSource_eq_ok_iff.2 ⟨.stop, by decide, by decide⟩
    rw [run, valid]
    exact Task.perform_of_shortage .captured rfl
      (Task.machine_of_shortage accepted (by decide) rfl) 9 clock
  · let task (plain : Bool) : Task :=
      { settings := { plain, disassemble := true }, file := "a.bf", source := [0x2b], input := [] }
    have valid : taskOf ["-d", "a.bf"] {} wide (fun _ => .ok [0x2b]) none [] =
        .ok (task false) := rfl
    have valid' : taskOf ["-dp", "a.bf"] {} wide (fun _ => .ok [0x2b]) none [] =
        .ok (task true) := rfl
    obtain ⟨rest, listed⟩ := listing_of_increment
    obtain ⟨coloured, plain⟩ := head?_renderOutput wide rfl rfl rest
    have performed (plain : Bool) : ((task plain).perform 9 {} wide clock).map Outcome.output =
        some (wide.renderOutput plain ("\x1b[90m0" ++ rest)) := by
      have accepted : Engine.disassemble {} (.bytes (task plain).source) (some (task plain).file) =
          .ok ("\x1b[90m0" ++ rest) := listed
      have listing : (task plain).perform 9 {} wide clock = _ :=
        Task.perform_of_listing wide rfl rfl 9 clock
      rw [listing, accepted]
      rfl
    rw [run, valid, run, valid']
    dsimp only
    rw [performed, performed]
    intro same
    have heads := congrArg List.head? (Option.some.inj same)
    rw [coloured, plain] at heads
    cases heads
  · let task (plain : Bool) : Task :=
      { settings := { plain }, file := "a.bf", source := control, input := [] }
    have valid : taskOf ["-p", "a.bf"] {} wide (fun _ => .ok control) none [] = .ok (task true) := rfl
    have valid' : taskOf ["a.bf"] {} wide (fun _ => .ok control) none [] = .ok (task false) := rfl
    have first : Assembly.FirstDefect (Source.bytes control).tokens.toList 2 := by decide
    have rejected : Program.ofSource (.bytes control) = .error (.unexpectedClosing ⟨2, 2⟩) :=
      Assembly.ofTokens_of_closing first (by decide)
    let failure : Failure := .assembling (.unexpectedClosing ⟨2, 2⟩) (some "a.bf")
    have refused : Engine.compile (.bytes control) (some "a.bf") = .error failure := by
      rw [Engine.compile, rejected]
      rfl
    have reportable : failure.Reportable {} control := Engine.reportable_of_compile refused rfl
    have performed (plain : Bool) : (task plain).perform 9 {} wide clock = _ :=
      Task.perform_of_reportable wide rfl
        (by rw [Task.machine, Engine.load, show (task plain).source = control from rfl,
          show (task plain).file = "a.bf" from rfl, refused]) reportable 9 clock
    obtain ⟨kept, removed⟩ := mem_report_of_control "a.bf" (by decide)
    rw [run, valid, run, valid']
    dsimp only
    rw [performed, performed]
    intro same
    have texts : ({ failure := some failure } : Transcript).text wide (task true) =
        Text.withoutEscapes .colour
          (({ failure := some failure } : Transcript).text wide (task false)) :=
      Option.some.inj same
    have coloured : ({ failure := some failure } : Transcript).text wide (task false) =
        failure.report control "a.bf" ++ "\n" := by
      simp [Transcript.text, Settings.shown, task, wide]
    have plain : ({ failure := some failure } : Transcript).text wide (task true) =
        Text.withoutEscapes .colour
          (Text.withoutEscapes .control (failure.report control "a.bf" ++ "\n")) := by
      simp [Transcript.text, Settings.shown, task, wide, Screen.captured]
    rw [plain, coloured] at texts
    rw [← texts, Text.toList_withoutEscapes] at kept
    exact removed (EscapeForm.mem_of_mem_remove kept)

end Command
end TapeVM
