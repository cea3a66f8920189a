import TapeVM.Proofs.Capacity
import TapeVM.Proofs.Escapes

/-! Reports: what a session writes to standard error beside what it computes. What it computes is
given by its engine: by the failure that refused the source, or else by the course of the machine.
Reports are made of whole lines, so colours may be taken out of them piece by piece. -/
namespace TapeVM

/-- A run of which all can be shown ends as the course of its machine does, if that ends. -/
theorem Run.exists_complete {m : Machine} {limit : Nat} {verbosity : Int}
    (shown : 0 < verbosity → Machine.Shown 0 (m.course limit).dispatched) {ending : Ending}
    (ended : (m.course limit).ending = some ending) :
    ∃ last, (m.start verbosity).complete limit = some (last, ending) ∧
      last.machine = (m.course limit).last.flush ∧
      last.steps = (m.course limit).dispatched.length ∧
      last.trace.toList.map .ok =
        if 0 < verbosity then Machine.traceLines 0 (m.course limit).dispatched else [] := by
  obtain ⟨recorded, ends⟩ := @recorded_follow (m.start verbosity) limit fun traced =>
    shown (of_decide_eq_true traced)
  refine ⟨((m.start verbosity).follow limit).1.close,
    complete_eq_some_iff.2 ⟨_, _, Prod.ext rfl (ends.trans ended), rfl⟩, ?_, ?_, ?_⟩
  · rw [close, recorded.machine]
    rfl
  · simpa [close, Machine.start] using recorded.steps
  · simpa [close, Machine.start] using recorded.trace

theorem Run.complete_eq_none {m : Machine} {limit : Nat} {verbosity : Int}
    (shown : 0 < verbosity → Machine.Shown 0 (m.course limit).dispatched)
    (goes : (m.course limit).ending = none) : (m.start verbosity).complete limit = none := by
  obtain ⟨-, ends⟩ := @recorded_follow (m.start verbosity) limit fun traced =>
    shown (of_decide_eq_true traced)
  have follows : (m.start verbosity).follow limit = (_, none) := Prod.ext rfl (ends.trans goes)
  rw [complete, follows]

theorem Machine.line_of_traced {traced : Prop} [Decidable traced] {trace : List String}
    {step : Nat} {states : List Machine}
    (lines : trace.map (Except.ok (ε := Fault)) = if traced then traceLines step states else []) :
    ∀ line ∈ trace, Text.Line line := by
  split at lines
  · exact line_of_traceLines lines
  · obtain rfl : trace = [] := List.map_eq_nil_iff.1 lines
    simp

namespace Statistics

variable {stats : Statistics} {name : String}

theorem put_of_absent (absent : name ∉ stats.entries.map Prod.fst) (value : Measure) :
    stats.put name value = ⟨stats.entries ++ [(name, value)]⟩ := by
  rw [put]
  generalize stats.entries = entries at absent
  congr
  induction entries with
  | nil => rfl
  | cons entry entries ih =>
    obtain ⟨other, old⟩ := entry
    rw [List.map_cons, List.mem_cons, not_or] at absent
    rw [putEntry, if_neg (Ne.symm absent.1), ih absent.2, List.cons_append]

theorem addCount_of_absent (absent : name ∉ stats.entries.map Prod.fst) (amount : Nat) :
    stats.addCount name amount = ⟨stats.entries ++ [(name, .count amount)]⟩ := by
  have nothing : stats.get? name = none := by
    refine List.lookup_eq_none_iff.2 fun entry member => bne_iff_ne.2 ?_
    rintro rfl
    exact absent (List.mem_map_of_mem member)
  rw [addCount, countOf, nothing, Int.zero_add, put_of_absent absent]

end Statistics

/-- What is measured of a run: the length of its program, the time until the machine was ready, the
steps and, if the run was finished, the time it took. -/
def Run.measured (length : Nat) (compiling : Float) (steps : Nat) (running : Option Float) :
    Statistics :=
  ⟨[("instructions", .count length), ("compile", .seconds compiling), ("steps", .count steps)] ++
    running.toList.map fun duration => ("run", .seconds duration)⟩

theorem Run.account_prepared (run : Run) (length : Nat) (compiling : Float) :
    run.account ((({} : Statistics).put "instructions" (.count length)).put "compile"
      (.seconds compiling)) = measured length compiling run.steps none := by
  have first : ({} : Statistics).put "instructions" (.count length) =
      ⟨[("instructions", .count length)]⟩ := Statistics.put_of_absent (by simp) _
  rw [account, first, Statistics.put_of_absent, Statistics.addCount_of_absent]
  · rfl
  · simp
  · simp

theorem Run.put_measured (length : Nat) (compiling : Float) (steps : Nat) (duration : Float) :
    (measured length compiling steps none).put "run" (.seconds duration) =
      measured length compiling steps (some duration) := by
  rw [Statistics.put_of_absent]
  · rfl
  · simp [measured]

theorem Run.numbers_measured (length : Nat) (compiling : Float) (steps : Nat)
    (running : Option Float) :
    (measured length compiling steps running).numbers = [(length : Int), (steps : Int)] := by
  cases running <;> rfl

def Run.Ending.failure? : Run.Ending → Option Failure
  | .finished => none
  | .faulted fault => some (.running fault)

namespace Settings

def shown (settings : Settings) (text : String) : String :=
  if settings.plain then Text.withoutEscapes .colour text else text

/-- What it shows of texts that are written one after the other. -/
def written (settings : Settings) (texts : List String) : String :=
  String.join (texts.map settings.shown)

variable (settings : Settings)

@[simp] theorem written_nil : settings.written [] = "" := rfl

@[simp] theorem written_cons (text : String) (texts : List String) :
    settings.written (text :: texts) = settings.shown text ++ settings.written texts := by
  rw [written, List.map_cons, String.join_cons, written]

theorem written_append (texts more : List String) :
    settings.written (texts ++ more) = settings.written texts ++ settings.written more := by
  rw [written, List.map_append, String.join_append, written, written]

end Settings

def Failure.excerpt (failure : Failure) (source : List UInt8) (file : String) : String :=
  match failure.bracket? with
  | some (location, token) =>
    Excerpt.text file location.line location.column token (.bytes source)
  | none => ""

def Failure.report (failure : Failure) (source : List UInt8) (file : String) : String :=
  Text.Style.alarm.paint "error:" ++ " " ++ failure.message ++ failure.excerpt source file

namespace Session

variable {s : Session} {limit : Nat} {source : List UInt8} {file : String} {failure : Failure}

theorem context_of_reportable {host : Host} (reportable : failure.Reportable host source)
    (file : String) : context host failure source file = .ok (failure.excerpt source file) := by
  rw [context, Failure.excerpt]
  cases bracket : failure.bracket? with
  | none => rfl
  | some place => exact Host.write_of_writes (reportable.excerpt _ _ bracket)

theorem fail_of_reportable (reportable : failure.Reportable s.host source) (file : String) :
    s.fail failure source file =
      { s.echoError (failure.report source file) with failed := true } := by
  obtain ⟨diagnostic, told⟩ := Option.isSome_iff_exists.1 reportable.told
  simp only [fail, Failure.raised_of_writes reportable.message, told, Session.report,
    context_of_reportable reportable file]
  rfl

theorem fail_of_shortage (s : Session) (cause : Host.Shortage) (source : List UInt8)
    (file : String) :
    s.fail (.loading (.shortage cause)) source file = s.abort (.loading (.shortage cause)) := by
  have raised : (Failure.loading (.shortage cause)).raised s.host = .loading (.shortage cause) :=
    Failure.raised_of_writes (by simp [Failure.numbers, Machine.LoadError.numbers])
  simp only [fail, raised]
  rfl

theorem compile_eq (s : Session) (source : List UInt8) (file : String) :
    s.compile source file = match Engine.compile (.bytes source) (some file) with
      | .error failure => (s.readClock.2.fail failure source file, none)
      | .ok program =>
        if s.settings.disassemble then
          match Engine.list s.host program with
          | .ok text => (s.readClock.2.echo text, none)
          | .error failure => (s.readClock.2.fail failure source file, none)
        else (s.readClock.2, some (program, s.readClock.1)) := rfl

def engine (s : Session) : Engine := { tapeSize := s.settings.tapeSize, host := s.host }

/-- A source that is refused is all that a session fails for, and nothing is measured. -/
theorem execute_of_refused (runs : s.settings.disassemble = false)
    (refused : s.engine.load (.bytes source) (some file) none { pending := s.pending } =
      .error failure) :
    s.execute limit source file = some (s.readClock.2.fail failure source file) := by
  rw [Engine.load] at refused
  rw [execute, compile_eq, runs]
  cases compiled : Engine.compile (.bytes source) (some file) with
  | error other =>
    obtain rfl : other = failure := by simpa [compiled] using refused
    rfl
  | ok program =>
    simp only [compiled, Option.getD_none, engine] at refused
    simp only [Bool.false_eq_true, if_false, load, readClock]
    cases checked : Machine.load s.host program s.settings.tapeSize { pending := s.pending } with
    | error e =>
      obtain rfl : .loading e = failure := by simpa [checked, Except.mapError] using refused
      rfl
    | ok machine => simp [checked, Except.mapError] at refused

def prepared (s : Session) (program : Program) : Session :=
  let began := s.readClock
  let ready := began.2.readClock
  ready.2.measure fun stats =>
    (stats.put "instructions" (.count program.size)).put "compile" (.seconds (ready.1 - began.1))

theorem execute_of_loaded (runs : s.settings.disassemble = false) {machine : Machine}
    (loaded : s.engine.load (.bytes source) (some file) none { pending := s.pending } =
      .ok machine) :
    s.execute limit source file =
      ((machine.start s.settings.verbose).complete limit).map fun result =>
        (s.prepared machine.program).conclude source file s.readClock.2.readClock.1 result.1
          result.2 := by
  obtain ⟨program, compiled, made⟩ := Engine.load_eq_ok_iff.1 loaded
  obtain rfl : machine.program = program := (Machine.sound_of_load made).program
  rw [Option.getD_none] at made
  change Machine.load s.host machine.program s.settings.tapeSize { pending := s.pending } = _ at made
  rw [execute, compile_eq, runs, compiled]
  simp only [Bool.false_eq_true, if_false, load, readClock, made]
  rfl

theorem echoError_eq (s : Session) (text : String) : s.echoError text = { s with
    errors := s.errors ++ s.settings.shown (s.screen.renderError s.settings.plain text) } := rfl

theorem foldl_writeError (lines : List String) (s : Session) :
    lines.foldl writeError s = { s with errors := s.errors ++ s.settings.written lines } := by
  induction lines generalizing s with
  | nil => simp
  | cons line lines ih =>
    rw [List.foldl_cons, ih, Settings.written_cons, ← String.append_assoc]
    rfl

theorem collect_eq (s : Session) (run : Run) : s.collect run = { s with
    output := s.output ++ run.machine.console.output
    errors := s.errors ++ s.settings.written run.trace.toList } := by
  rw [collect, ← Array.foldl_toList, foldl_writeError]

/-- What a run adds to a session that can report how it ended. -/
theorem conclude_eq {ending : Run.Ending}
    (reportable : ∀ failure ∈ ending.failure?, failure.Reportable s.host source)
    (file : String) (readyAt : Float) (run : Run) :
    s.conclude source file readyAt run ending = { s with
      clock := (s.conclude source file readyAt run ending).clock
      pending := run.machine.console.pending
      output := s.output ++ run.machine.console.output
      errors := s.errors ++ s.settings.written run.trace.toList ++
        s.settings.written (ending.failure?.map fun failure =>
          s.screen.renderError s.settings.plain (failure.report source file)).toList
      failed := s.failed || ending.failure?.isSome
      stats := s.stats.map fun stats =>
        if ending = .finished then
          (run.account stats).put "run" (.seconds (s.readClock.1 - readyAt))
        else run.account stats } := by
  simp only [conclude, collect_eq]
  cases ending with
  | faulted fault =>
    have told (t : Session) (same : t.host = s.host) : t.fail (.running fault) source file = _ :=
      fail_of_reportable (same ▸ reportable _ rfl) file
    dsimp only
    rw [told]
    · simp [echoError_eq, measure, Run.Ending.failure?]
    · rfl
  | finished =>
    cases measured : s.stats with
    | none => simp [measure, Run.Ending.failure?]
    | some stats => simp [measure, Run.Ending.failure?, readClock]

theorem stats_prepared (settings : Settings) (host : Host) (screen : Screen)
    (pending : List ReadResult) (clock : Clock) (program : Program) (run : Run)
    (ending : Run.Ending) (duration : Float) :
    let began := clock.read
    let ready := began.2.read
    ((start settings host screen pending clock).prepared program).stats.map (fun stats =>
        if ending = .finished then (run.account stats).put "run" (.seconds duration)
        else run.account stats) =
      if settings.stats then
        some (Run.measured program.size (ready.1 - began.1) run.steps
          (if ending = .finished then some duration else none))
      else none := by
  intro began ready
  by_cases counted : settings.stats = true
  · have before : ((start settings host screen pending clock).prepared program).stats =
        some ((({} : Statistics).put "instructions" (.count program.size)).put "compile"
          (.seconds (ready.1 - began.1))) := by
      rw [prepared, start, if_pos counted]
      rfl
    rw [before, Option.map_some, if_pos counted, Run.account_prepared]
    split
    · rw [Run.put_measured]
    · rfl
  · have before : ((start settings host screen pending clock).prepared program).stats = none := by
      rw [prepared, start, if_neg counted]
      rfl
    rw [before, if_neg counted, Option.map_none]

/-- A session that lists its programs runs none, and it fails where there is none. -/
theorem compile_listing (listing : s.settings.disassemble = true)
    (room : s.host.shortage? source.length = none) (file : String) :
    s.compile source file =
      (match Engine.disassemble s.host (.bytes source) (some file) with
        | .error failure =>
          { s.readClock.2.echoError (failure.report source file) with failed := true }
        | .ok text => s.readClock.2.echo text, none) := by
  rw [compile_eq, listing, Engine.disassemble]
  cases compiled : Engine.compile (.bytes source) (some file) with
  | error failure =>
    have reportable : failure.Reportable s.readClock.2.host source :=
      Engine.reportable_of_compile compiled room
    exact Prod.ext (fail_of_reportable reportable file) rfl
  | ok program =>
    obtain ⟨text, listed⟩ := Engine.exists_list compiled room
    simp only [if_true, listed]

theorem execute_listing (listing : s.settings.disassemble = true)
    (room : s.host.shortage? source.length = none) (limit : Nat) (file : String) :
    s.execute limit source file = some (s.compile source file).1 := by
  have nothing := congrArg Prod.snd (compile_listing listing room file)
  rw [execute]
  generalize s.compile source file = outcome at nothing
  obtain ⟨after, found⟩ := outcome
  obtain rfl : found = none := nothing
  rfl

end Session

/-- Standard error goes elsewhere than to a terminal, and what removes escape sequences from a
report keeps the end of its last line. -/
structure Screen.Captures (screen : Screen) : Prop where
  elsewhere : screen.errorTerminal = false
  whole : ∀ text, Text.Whole (screen.strip (text ++ "\n"))

theorem Screen.captures_captured : captured.Captures :=
  ⟨rfl, Text.whole_withoutEscapes Text.EscapeForm.inline_control⟩

theorem Screen.Captures.renderError_eq {screen : Screen} (captures : screen.Captures) (plain : Bool)
    (text : String) : screen.renderError plain text = screen.strip (text ++ "\n") := by
  rw [renderError, render, captures.elsewhere]
  simp

end TapeVM
