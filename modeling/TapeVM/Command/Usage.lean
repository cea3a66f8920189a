import TapeVM.Decimal
import TapeVM.Screen
import TapeVM.Text.Quoted

/-! What the command line tells about itself: its help page, and what is wrong with a command. -/
namespace TapeVM.Command

inductive Unreadable where
  | missing
  | directory
  | notDirectory
  | nameTooLong
  | other (reason : String)
  deriving DecidableEq, Repr

def Unreadable.reason : Unreadable → String
  | missing => "No such file or directory"
  | directory => "Is a directory"
  | notDirectory => "Not a directory"
  | nameTooLong => "File name too long"
  | other reason => reason

inductive UsageError where
  | unknownOption (name : String) (alike : List String)
  | valueMissing (option : String)
  | valueNotTaken (option : String)
  | scriptMissing
  | scriptUnreadable (name : String) (cause : Unreadable)
  | tapeSizeNotANumber (text : String)
  | tapeSizeTooSmall (size : Int)
  | extraArguments (first : String) (others : List String)
  deriving DecidableEq, Repr

namespace UsageError

def suggestion : List String → String
  | [] => ""
  | [name] => " Did you mean " ++ Text.quoted name ++ "?"
  | names => " (Did you mean one of: " ++ ", ".intercalate (names.map Text.quoted) ++ "?)"

def message : UsageError → String
  | unknownOption name alike =>
    "No such option " ++ Text.quoted name ++ "." ++ suggestion alike
  | valueMissing option => "Option " ++ Text.quoted option ++ " requires an argument."
  | valueNotTaken option => "Option " ++ Text.quoted option ++ " does not take a value."
  | scriptMissing => "Missing argument 'SCRIPT'."
  | scriptUnreadable name cause =>
    "Invalid value for 'SCRIPT': '" ++ name ++ "': " ++ cause.reason
  | tapeSizeNotANumber text =>
    "Invalid value for '--tape-size' / '-t': " ++ Text.quoted text ++
      " is not a valid integer range."
  | tapeSizeTooSmall size =>
    "Invalid value for '--tape-size' / '-t': " ++ Decimal.integer size ++
      " is not in the range x>=1."
  | extraArguments first others =>
    "Got unexpected extra argument" ++ (if others.isEmpty then "" else "s") ++ " (" ++
      " ".intercalate (first :: others) ++ ")"

/-- The usage lines are left out where a known option was used in a wrong way. -/
def showsUsage : UsageError → Bool
  | valueMissing _ | valueNotTaken _ => false
  | _ => true

end UsageError

def usageLine : String := "Usage: bfvm [OPTIONS] SCRIPT\n"

def UsageError.report (error : UsageError) (screen : Screen) : String :=
  (if error.showsUsage then
    screen.renderError false (usageLine ++ "Try 'bfvm --help' for help.\n")
  else "") ++ screen.renderError false ("Error: " ++ error.message)

def helpPage : String := usageLine ++ "\n" ++ "\n".intercalate [
  "  Compile and run the program in SCRIPT, or \x60-\x60 to read it from stdin.",
  "",
  "Options:",
  "  -t, --tape-size INTEGER RANGE  Number of byte cells on the tape.  [default:",
  "                                 30000; x>=1]",
  "  -v, --verbose                  Trace every instruction to stderr.",
  "  --stats                        Display compile/run timings and number of",
  "                                 steps.",
  "  -d, --disassemble              Print the compiled program instead of running",
  "                                 it.",
  "  -p, --plain                    Strip ANSI color codes from diagnostics.",
  "  -h, --help                     Show this message and exit."]

end TapeVM.Command
