import TapeVM.Text.Escape

/-! Where reports are shown. One that goes to a terminal keeps its colours; for any other place, and
for a plain report, its escape sequences are removed. What counts as one is up to the screen. -/
namespace TapeVM

structure Screen where
  outputTerminal : Bool := false
  errorTerminal : Bool := false
  /-- A text without its escape sequences. -/
  strip : String → String

namespace Screen

/-- A screen without terminals, that removes control sequences of every kind. -/
def captured : Screen := { strip := Text.withoutEscapes .control }

/-- A report ends with a newline. -/
def render (screen : Screen) (terminal plain : Bool) (text : String) : String :=
  if plain || !terminal then screen.strip (text ++ "\n") else text ++ "\n"

def renderOutput (screen : Screen) (plain : Bool) (text : String) : List UInt8 :=
  (screen.render screen.outputTerminal plain text).toList.flatMap String.utf8EncodeChar

def renderError (screen : Screen) (plain : Bool) (text : String) : String :=
  screen.render screen.errorTerminal plain text

end Screen
end TapeVM
