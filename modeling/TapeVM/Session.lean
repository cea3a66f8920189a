import TapeVM.Clock
import TapeVM.Engine
import TapeVM.Excerpt
import TapeVM.Screen
import TapeVM.Statistics

/-! A session: sources are executed one after the other, and what they write, how long they take and
whether one failed is kept. A failure that there is a diagnostic for is reported; any other is left
to whoever started the session. -/
namespace TapeVM

structure Settings where
  tapeSize : Int := defaultTapeSize
  /-- Every instruction is traced if this is positive. -/
  verbose : Int := 0
  stats : Bool := false
  plain : Bool := false
  disassemble : Bool := false
  deriving DecidableEq, Repr

/-- What programs have not read yet, what has been written so far, and what has been measured. -/
structure Session where
  settings : Settings
  host : Host
  screen : Screen
  pending : List ReadResult := []
  clock : Clock := {}
  stats : Option Statistics := none
  failed : Bool := false
  /-- The failure that nothing has been reported about. -/
  uncaught : Option Failure := none
  output : List UInt8 := []
  errors : String := ""

/-- A run that is about to start, and when its machine was ready. -/
structure Job where
  run : Run
  readyAt : Float

namespace Session

def start (settings : Settings) (host : Host) (screen : Screen) (pending : List ReadResult)
    (clock : Clock) : Session :=
  { settings, host, screen, pending, clock, stats := if settings.stats then some {} else none }

def readClock (s : Session) : Float × Session :=
  let (reading, clock) := s.clock.read
  (reading, { s with clock })

/-- One write to standard error. -/
def writeError (s : Session) (text : String) : Session :=
  let text := if s.settings.plain then Text.withoutEscapes .colour text else text
  { s with errors := s.errors ++ text }

def echoError (s : Session) (text : String) : Session :=
  s.writeError (s.screen.renderError s.settings.plain text)

def echo (s : Session) (text : String) : Session :=
  { s with output := s.output ++ s.screen.renderOutput s.settings.plain text }

/-- The source around the bracket that a failure is about, and nothing for other failures. -/
def context (host : Host) (failure : Failure) (source : List UInt8) (file : String) :
    Except Nat String :=
  match failure.bracket? with
  | some (location, token) =>
    Excerpt.write host file location.line location.column token (.bytes source)
  | none => .ok ""

def abort (s : Session) (failure : Failure) : Session := { s with uncaught := some failure }

def report (s : Session) (failure : Failure) (source : List UInt8) (file : String) : Session :=
  match context s.host failure source file with
  | .error limit => s.abort (.overlong limit)
  | .ok context =>
    let s := s.echoError (Text.Style.alarm.paint "error:" ++ " " ++ failure.message ++ context)
    { s with failed := true }

def fail (s : Session) (failure : Failure) (source : List UInt8) (file : String) : Session :=
  let failure := failure.raised s.host
  match failure.diagnostic? with
  | some _ => s.report failure source file
  | none => s.abort failure

def measure (s : Session) (change : Statistics → Statistics) : Session :=
  { s with stats := s.stats.map change }

/-- The program of a source and the time when its compilation began, or none if there is nothing to
be run. -/
def compile (s : Session) (source : List UInt8) (file : String) :
    Session × Option (Program × Float) :=
  let (began, s) := s.readClock
  match Engine.compile (.bytes source) (some file) with
  | .error failure => (s.fail failure source file, none)
  | .ok program =>
    if s.settings.disassemble then
      match Engine.list s.host program with
      | .ok text => (s.echo text, none)
      | .error failure => (s.fail failure source file, none)
    else (s, some (program, began))

def load (s : Session) (source : List UInt8) (file : String) (program : Program) (began : Float) :
    Session × Option Job :=
  match Machine.load s.host program s.settings.tapeSize { pending := s.pending } with
  | .error error => (s.fail (.loading error) source file, none)
  | .ok machine =>
    let (readyAt, s) := s.readClock
    let s := s.measure fun stats =>
      (stats.put "instructions" (.count program.size)).put "compile" (.seconds (readyAt - began))
    (s, some ⟨machine.start s.settings.verbose, readyAt⟩)

def collect (s : Session) (run : Run) : Session :=
  let s := { s with output := s.output ++ run.machine.console.output }
  run.trace.foldl writeError s

def conclude (s : Session) (source : List UInt8) (file : String) (readyAt : Float) (run : Run)
    (ending : Run.Ending) : Session :=
  let s := s.collect run
  let s := { s with pending := run.machine.console.pending }
  let s := s.measure run.account
  match ending with
  | .faulted fault => s.fail (.running fault) source file
  | .finished =>
    if s.stats.isSome then
      let (now, s) := s.readClock
      s.measure fun stats => stats.put "run" (.seconds (now - readyAt))
    else s

/-- A source is compiled and, unless it is only listed, run. There is no answer if the run takes
more than `limit` steps. -/
def execute (limit : Nat) (s : Session) (source : List UInt8) (file : String) : Option Session :=
  match s.compile source file with
  | (s, none) => some s
  | (s, some (program, began)) =>
    match s.load source file program began with
    | (s, none) => some s
    | (s, some job) =>
      (job.run.complete limit).map fun (run, ending) =>
        s.conclude source file job.readyAt run ending

/-- The statistics are shown if there are any; the exit status tells whether a source failed. -/
def finalize (s : Session) : Session × Nat :=
  let s := match s.stats with
    | some stats =>
      if stats.entries.isEmpty then s
      else
        match stats.write s.host with
        | .ok table => s.echoError table
        | .error limit => s.abort (.overlong limit)
    | none => s
  (s, if s.failed then 1 else 0)

end Session
end TapeVM
