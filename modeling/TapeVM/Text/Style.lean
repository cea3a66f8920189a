/-! Coloured text for terminals. A style opens with its colour codes and ends with one reset. -/
namespace TapeVM.Text

inductive Style where
  /-- Line numbers and other things that may be overlooked. -/
  | faint
  | bright
  | cursor
  | alarm
  | title
  | highlight
  deriving DecidableEq, Repr

namespace Style

def codes : Style → List String
  | faint => ["90"]
  | bright => ["97"]
  | cursor => ["1;97"]
  | alarm => ["1;31"]
  | title => ["97", "48;5;30"]
  | highlight => ["48;5;30", "1;97"]

def escape (code : String) : String := "\x1b[" ++ code ++ "m"

def reset : String := escape "0"

def opening (style : Style) : String := String.join (style.codes.map escape)

def paint (style : Style) (text : String) : String := style.opening ++ text ++ reset

end Style
end TapeVM.Text
