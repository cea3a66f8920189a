import TapeVM.Command

/-! The command line program. Only this module reads files, the environment, the clock and the
standard streams. Input is read when a program asks for it, and what a program writes appears before
its next instruction. -/
namespace TapeVM.Command

def secondsNow : IO Float := do
  return Float.ofNat (← IO.monoNanosNow) / 1e9

partial def readAll (stream : IO.FS.Stream) (content : ByteArray) : IO ByteArray := do
  let chunk ← stream.read 65536
  if chunk.isEmpty then return content else readAll stream (content ++ chunk)

def readScript (name : String) : IO (Except Unreadable (List UInt8)) := do
  try
    return .ok (← IO.FS.readBinFile name).toList
  catch error =>
    return .error (match error with
      | .noFileOrDirectory .. => .missing
      | .inappropriateType _ _ "not a directory" => .notDirectory
      | .inappropriateType .. => .directory
      | .invalidArgument _ _ "name too long" => .nameTooLong
      | other => .other other.toString)

def emit (output : List UInt8) (errors : String) : IO Unit := do
  unless output.isEmpty do
    let stdout ← IO.getStdout
    stdout.write ⟨output.toArray⟩
    stdout.flush
  unless errors.isEmpty do
    IO.eprint errors

def present (s : Session) : IO Session := do
  emit s.output s.errors
  return { s with output := [], errors := "" }

/-- The next byte of standard input, for a machine that is about to read it. -/
def supply (run : Run) : IO Run := do
  if run.machine.awaitsInput then
    let result ← try
        let chunk ← (← IO.getStdin).read 1
        pure (.bytes chunk.toList)
      catch error => pure (.failed { reason := error.toString })
    return { run with
      machine := { run.machine with console := { run.machine.console with pending := [result] } } }
  else return run

partial def drive (s : Session) (run : Run) : IO (Session × Run × Run.Ending) := do
  let (run, ending) := (← supply run).follow 1
  match ending with
  | some ending => return (s, run.close, ending)
  | none =>
    if run.machine.console.calls.isEmpty && run.trace.isEmpty then drive s run
    else drive (← present (s.collect run)) run.withoutHistory

/-- A screen that knows which of the standard streams are terminals. -/
def screenNow : IO Screen := do
  return { Screen.captured with
    outputTerminal := ← (← IO.getStdout).isTty
    errorTerminal := ← (← IO.getStderr).isTty }

def Task.performLive (task : Task) (screen : Screen) : IO UInt32 := do
  let s := Session.start task.settings {} screen task.input (.fixed (← secondsNow))
  let (s, compiled) := s.compile task.source task.file
  let s ← match compiled with
    | none => pure s
    | some (program, began) =>
      let (s, job) := { s with clock := .fixed (← secondsNow) }.load task.source task.file
        program began
      match job with
      | none => pure s
      | some job =>
        let (s, run, ending) ← drive s job.run
        pure ({ s with clock := .fixed (← secondsNow) }.conclude task.source task.file job.readyAt
          run ending)
  let outcome := outcomeOf s
  emit outcome.output outcome.errors
  if let some failure := outcome.uncaught then IO.eprintln failure.message
  return UInt32.ofNat outcome.exitStatus

def scriptOf (words : List String) : Option String :=
  match Invocation.ofWords words with
  | .ok inv => if inv.help then none else inv.operands.head?
  | .error _ => none

def runLive (words : List String) : IO UInt32 := do
  let script := scriptOf words
  let input ← if script = some "-" then readAll (← IO.getStdin) .empty else pure .empty
  let found ← match script with
    | none | some "-" => pure (.error .missing)
    | some name => readScript name
  let screen ← screenNow
  match taskOf words {} screen (fun _ => found) (← IO.getEnv tapeSizeVariable) input.toList with
  | .error outcome =>
    emit outcome.output outcome.errors
    return UInt32.ofNat outcome.exitStatus
  | .ok task => task.performLive screen

end TapeVM.Command

def main (words : List String) : IO UInt32 := TapeVM.Command.runLive words
