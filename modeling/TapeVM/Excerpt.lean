import TapeVM.Host
import TapeVM.Source
import TapeVM.Text.Justified
import TapeVM.Text.Style

/-! Excerpts from a source around the place of an error. Every place makes an excerpt, also one
that is not in the source, as long as the host can write its numbers. -/
namespace TapeVM

def trimReturns (line : List Char) : List Char :=
  (line.reverse.dropWhile (· == '\r')).reverse

/-- The lines of a source, without the carriage returns at their ends. -/
def Source.lines (source : Source) : List (List Char) :=
  (source.toCharacters.splitOn '\n').map trimReturns

namespace Excerpt

/-- A line with one part of it picked out. -/
structure Highlight where
  before : List Char
  marked : List Char
  after : List Char
  deriving DecidableEq, Repr

/-- The part of a line that starts at a column and is at most `width` characters long. A column
that is not on the line picks out nothing. -/
def highlight? (column : Int) (width : Nat) (line : List Char) : Option Highlight :=
  if 0 < column ∧ column ≤ line.length then
    let start := column.toNat - 1
    some ⟨line.take start, (line.drop start).take width, line.drop (start + width)⟩
  else none

def Highlight.text (h : Highlight) : String :=
  String.ofList h.before ++ Text.Style.highlight.paint (String.ofList h.marked) ++
    String.ofList h.after

/-- A numbered line; the line of the error is the current one. -/
structure Row where
  number : Nat
  line : List Char
  current : Bool
  highlight : Option Highlight
  deriving DecidableEq, Repr

def Row.text (row : Row) : String :=
  let style := if row.current then Text.Style.bright else Text.Style.faint
  style.paint (Text.padLeft 5 (Decimal.natural row.number) ++ " |") ++ " " ++
    match row.highlight with
    | some highlight => highlight.text
    | none => String.ofList row.line

def radius : Int := 2

def rows (line column : Int) (width : Nat) (source : Source) : List Row :=
  (source.lines.zipIdx 1).filterMap fun (text, number) =>
    if line - radius ≤ number ∧ number ≤ line + radius then
      let current := decide ((number : Int) = line)
      some ⟨number, text, current, if current then highlight? column width text else none⟩
    else none

def header (file : String) (line : Int) : String :=
  Text.Style.bright.paint ("  File \"" ++ file ++ "\", line " ++ Decimal.integer line)

/-- An empty line, the header and the rows, each ended by a newline. -/
def text (file : String) (line column : Int) (token : String) (source : Source) : String :=
  "\n" ++ "\n".intercalate (header file line ::
    (rows line column token.length source).map Row.text) ++ "\n"

/-- The numbers that an excerpt holds: that of the line in the header, and those of the rows. -/
def numbers (line column : Int) (token : String) (source : Source) : List Int :=
  line :: (rows line column token.length source).map fun row => (row.number : Int)

def write (host : Host) (file : String) (line column : Int) (token : String) (source : Source) :
    Except Nat String :=
  host.write (numbers line column token source) (text file line column token source)

end Excerpt
end TapeVM
