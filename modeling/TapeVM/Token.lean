import TapeVM.Decimal
import TapeVM.Source

/-! Tokens: symbols with the place where they stand. Lines and columns count from one, columns
count bytes, and only a line feed ends a line. -/
namespace TapeVM

/-- A place in a source. Places that come from a source are positive; a token list built by hand
may name any. -/
structure Location where
  line : Int
  column : Int
  deriving DecidableEq, Repr

def Location.text (l : Location) : String :=
  Decimal.integer l.line ++ ":" ++ Decimal.integer l.column

def Location.numbers (l : Location) : List Int := [l.line, l.column]

/-- What a token stands for. A token list built by hand may name symbols that do not exist. -/
inductive Terminal where
  | known (symbol : Symbol)
  | foreign (name : String)
  deriving DecidableEq, Repr

namespace Terminal

def name : Terminal → String
  | known symbol => symbol.name
  | foreign name => name

def ofName (name : String) : Terminal :=
  match Symbol.ofName? name with
  | some symbol => known symbol
  | none => foreign name

end Terminal

structure Token where
  terminal : Terminal
  location : Location
  deriving DecidableEq, Repr

/-- A scan under way: the place of the byte last read and the tokens found so far. -/
structure Scan where
  line : Nat := 1
  column : Nat := 0
  tokens : Array Token := #[]

namespace Scan

def feed (scan : Scan) (byte : UInt8) : Scan :=
  if byte = 0x0a then
    { scan with line := scan.line + 1, column := 0 }
  else
    match Symbol.ofByte? byte with
    | some symbol =>
      { scan with
        column := scan.column + 1
        tokens := scan.tokens.push ⟨.known symbol, ⟨scan.line, scan.column + 1⟩⟩ }
    | none => { scan with column := scan.column + 1 }

@[simp] theorem feed_newline (scan : Scan) :
    scan.feed 0x0a = { scan with line := scan.line + 1, column := 0 } := by
  simp [feed]

theorem feed_symbol (scan : Scan) (symbol : Symbol) :
    scan.feed symbol.byte =
      ⟨scan.line, scan.column + 1,
        scan.tokens.push ⟨.known symbol, ⟨scan.line, scan.column + 1⟩⟩⟩ := by
  have : symbol.byte ≠ 0x0a := by cases symbol <;> decide
  simp [feed, this]

theorem feed_comment (scan : Scan) {byte : UInt8} (newline : byte ≠ 0x0a)
    (comment : Symbol.ofByte? byte = none) :
    scan.feed byte = { scan with column := scan.column + 1 } := by
  simp [feed, newline, comment]

end Scan

/-- The tokens of a source in order, one for each symbol. -/
def Source.tokens (source : Source) : Array Token :=
  (source.toBytes.foldl Scan.feed {}).tokens

end TapeVM
