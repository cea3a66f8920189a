/-! Diagnostics: what a user of the language is told when a source or a run goes wrong. Each
category carries its own details, and some categories are special cases of others. -/
namespace TapeVM

/-- The token a diagnostic is about, as far as it is known. -/
structure Mark where
  line : Option Int := none
  column : Option Int := none
  token : Option String := none
  deriving DecidableEq, Repr

inductive Diagnostic where
  | general (message : String) (file : Option String)
  | parse (message : String) (file : Option String) (mark : Mark)
  /-- The source ended while `unclosed` loops were still open. -/
  | incomplete (message : String) (file : Option String) (mark : Mark) (unclosed : Option Int)
  | value (message : String) (file : Option String)
  /-- The cursor would have moved to `overflow` cells past the end of the tape. -/
  | tape (message : String) (tapeSize overflow : Option Int)
  | input (message : String) (file : Option String)
  deriving DecidableEq, Repr

namespace Diagnostic

inductive Category where
  | general | parse | incomplete | value | tape | input
  deriving DecidableEq, Repr

/-- Kinds of error known outside this library. -/
inductive Nature where
  | value | index | endOfInput
  deriving DecidableEq, Repr

namespace Category

/-- The categories a diagnostic of this one belongs to, the widest first. -/
def lineage : Category → List Category
  | general => [general]
  | parse => [general, parse]
  | incomplete => [general, parse, incomplete]
  | value => [general, value]
  | tape => [general, tape]
  | input => [general, input]

def nature? : Category → Option Nature
  | value => some .value
  | tape => some .index
  | input => some .endOfInput
  | general | parse | incomplete => none

end Category

def category : Diagnostic → Category
  | .general .. => .general
  | .parse .. => .parse
  | .incomplete .. => .incomplete
  | .value .. => .value
  | .tape .. => .tape
  | .input .. => .input

def message : Diagnostic → String
  | .general message _ => message
  | .parse message _ _ => message
  | .incomplete message _ _ _ => message
  | .value message _ => message
  | .tape message _ _ => message
  | .input message _ => message

end Diagnostic
end TapeVM
