import TapeVM.Command.Usage
import TapeVM.Text.Similarity

/-! The words of a command line sorted into options and operands. Options may stand anywhere before
a `--`. Short ones may be joined in one word, and one that takes a value takes the rest of the word
or else the next word. Nothing is said here about what the words mean. -/
namespace TapeVM.Command

inductive Switch where
  | verbose | stats | disassemble | plain | help
  deriving DecidableEq, Repr

inductive OptionName where
  | tapeSize
  | switch (switch : Switch)
  deriving DecidableEq, Repr

namespace OptionName

/-- In the alphabetical order of their long forms. -/
def all : List OptionName :=
  [switch .disassemble, switch .help, switch .plain, switch .stats, tapeSize, switch .verbose]

def long : OptionName → String
  | tapeSize => "--tape-size"
  | switch .verbose => "--verbose"
  | switch .stats => "--stats"
  | switch .disassemble => "--disassemble"
  | switch .plain => "--plain"
  | switch .help => "--help"

def ofLong? (name : String) : Option OptionName := all.find? fun option => option.long == name

def ofShort? : Char → Option OptionName
  | 't' => some tapeSize
  | 'v' => some (switch .verbose)
  | 'd' => some (switch .disassemble)
  | 'p' => some (switch .plain)
  | 'h' => some (switch .help)
  | _ => none

end OptionName

/-- What a command line asks for, word for word. Of several tape sizes the last one counts. -/
structure Invocation where
  tapeSize : Option String := none
  verbose : Nat := 0
  stats : Bool := false
  disassemble : Bool := false
  plain : Bool := false
  help : Bool := false
  operands : List String := []
  deriving DecidableEq, Repr

namespace Invocation

def turnOn (inv : Invocation) : Switch → Invocation
  | .verbose => { inv with verbose := inv.verbose + 1 }
  | .stats => { inv with stats := true }
  | .disassemble => { inv with disassemble := true }
  | .plain => { inv with plain := true }
  | .help => { inv with help := true }

def addOperands (inv : Invocation) (operands : List String) : Invocation :=
  { inv with operands := inv.operands ++ operands }

/-- An invocation with one more word read. The name of an option is left over if its value has to
be the next word. -/
abbrev Reading := Except UsageError (Invocation × Option String)

def readShort (inv : Invocation) : List Char → Reading
  | [] => .ok (inv, none)
  | c :: rest =>
    let name := String.ofList ['-', c]
    match OptionName.ofShort? c with
    | none => .error (.unknownOption name [])
    | some (.switch switch) => (inv.turnOn switch).readShort rest
    | some .tapeSize =>
      if rest.isEmpty then .ok (inv, some name)
      else .ok ({ inv with tapeSize := some (String.ofList rest) }, none)

/-- A word that starts with two dashes; a value may follow an equals sign. For a name that is not
known, those that are like it are suggested. -/
def readLong (inv : Invocation) (word : List Char) : Reading :=
  let name := String.ofList (word.takeWhile (· != '='))
  match OptionName.ofLong? name, word.dropWhile (· != '=') with
  | none, _ => .error (.unknownOption name (Text.alikeAmong (OptionName.all.map (·.long)) name))
  | some .tapeSize, [] => .ok (inv, some name)
  | some .tapeSize, _ :: value => .ok ({ inv with tapeSize := some (String.ofList value) }, none)
  | some (.switch switch), [] => .ok (inv.turnOn switch, none)
  | some (.switch _), _ :: _ => .error (.valueNotTaken name)

/-- A lone dash is an operand. -/
def readWord (inv : Invocation) (word : String) : Reading :=
  match word.toList with
  | '-' :: '-' :: _ => inv.readLong word.toList
  | '-' :: c :: rest => inv.readShort (c :: rest)
  | _ => .ok (inv.addOperands [word], none)

def readWords (inv : Invocation) : List String → Except UsageError Invocation
  | [] => .ok inv
  | "--" :: rest => .ok (inv.addOperands rest)
  | word :: rest =>
    match inv.readWord word with
    | .error error => .error error
    | .ok (inv, none) => inv.readWords rest
    | .ok (inv, some name) =>
      match rest with
      | [] => .error (.valueMissing name)
      | value :: rest => { inv with tapeSize := some value }.readWords rest

def ofWords (words : List String) : Except UsageError Invocation := readWords {} words

end Invocation
end TapeVM.Command
