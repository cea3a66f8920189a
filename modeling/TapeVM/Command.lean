import TapeVM.Command.Invocation
import TapeVM.Decimal.Reader
import TapeVM.Session

/-! The command: one script, run in a session of its own with the settings that the options and the
environment give it. Of several mistakes in a command line the first in this order is reported: a
word that cannot be read, the tape size given as an option, the script, the tape size given by the
environment, words left over. -/
namespace TapeVM.Command

/-- What a command leaves behind. What the host tells about an uncaught failure comes after its
errors and is not among them. -/
structure Outcome where
  exitStatus : Nat
  output : List UInt8 := []
  errors : String := ""
  uncaught : Option Failure := none
  deriving DecidableEq

abbrev Directory := String → Except Unreadable (List UInt8)

def tapeSizeVariable : String := "BFVM_TAPE_SIZE"

/-- A script that is to be executed, and the input its program will read. -/
structure Task where
  settings : Settings
  file : String
  source : List UInt8
  input : List ReadResult

def readTapeSize (host : Host) (text : String) : Except UsageError Int :=
  match Decimal.readInteger? host text with
  | none => .error (.tapeSizeNotANumber text)
  | some size => if size < 1 then .error (.tapeSizeTooSmall size) else .ok size

/-- A variable that is set to nothing counts as unset. -/
def environmentTapeSize (host : Host) (environment : Option String) : Except UsageError Int :=
  match environment with
  | none | some "" => .ok defaultTapeSize
  | some text => readTapeSize host text

/-- A size that is given as an option wins over the environment. -/
def tapeSizeOf (host : Host) (given : Option Int) (environment : Option String) :
    Except UsageError Int :=
  match given with
  | some size => .ok size
  | none => environmentTapeSize host environment

/-- A script read from standard input uses it up, so its program finds no input. -/
def openScript (directory : Directory) (input : List UInt8) (name : String) :
    Except UsageError (String × List UInt8 × List ReadResult) :=
  if name = "-" then .ok ("<stdin>", input, [])
  else
    match directory name with
    | .error cause => .error (.scriptUnreadable name cause)
    | .ok source => .ok (name, source, (Console.ofBytes input).pending)

def Invocation.task (inv : Invocation) (host : Host) (directory : Directory)
    (environment : Option String) (input : List UInt8) : Except UsageError Task := do
  let given ← inv.tapeSize.mapM (readTapeSize host)
  match inv.operands with
  | [] => .error .scriptMissing
  | script :: extra =>
    let (file, source, pending) ← openScript directory input script
    let tapeSize ← tapeSizeOf host given environment
    match extra with
    | first :: others => .error (.extraArguments first others)
    | [] =>
      let settings : Settings := {
        tapeSize
        verbose := inv.verbose
        stats := inv.stats
        plain := inv.plain
        disassemble := inv.disassemble }
      .ok { settings, file, source, input := pending }

def refuse (screen : Screen) (error : UsageError) : Outcome :=
  { exitStatus := 2, errors := error.report screen }

/-- The task a command line sets, or the outcome if it sets none. -/
def taskOf (words : List String) (host : Host) (screen : Screen) (directory : Directory)
    (environment : Option String) (input : List UInt8) : Except Outcome Task :=
  match Invocation.ofWords words with
  | .error error => .error (refuse screen error)
  | .ok inv =>
    if inv.help then .error { exitStatus := 0, output := screen.renderOutput false helpPage }
    else (inv.task host directory environment input).mapError (refuse screen)

def leave (s : Session) (exitStatus : Nat) : Outcome :=
  { exitStatus := if s.uncaught.isSome then 1 else exitStatus
    output := s.output
    errors := s.errors
    uncaught := s.uncaught }

/-- A failure that is not caught ends the command at once. -/
def outcomeOf (s : Session) : Outcome :=
  if s.uncaught.isSome then leave s 1
  else
    let (s, exitStatus) := s.finalize
    leave s exitStatus

/-- There is no outcome if the program takes more than `limit` steps. -/
def Task.perform (limit : Nat) (task : Task) (host : Host) (screen : Screen) (clock : Clock) :
    Option Outcome :=
  ((Session.start task.settings host screen task.input clock).execute limit task.source
    task.file).map outcomeOf

def run (limit : Nat) (words : List String) (host : Host) (screen : Screen) (directory : Directory)
    (environment : Option String) (input : List UInt8) (clock : Clock) : Option Outcome :=
  match taskOf words host screen directory environment input with
  | .error outcome => some outcome
  | .ok task => task.perform limit host screen clock

end TapeVM.Command
