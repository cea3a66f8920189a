/-! The eight symbols of the tape language: their characters, bytes and names. Nothing is said
here about where symbols stand in a source or what they do to a tape. -/
namespace TapeVM

inductive Symbol where
  | increment | decrement | moveLeft | moveRight | loopStart | loopEnd | input | output
  deriving DecidableEq, Repr

namespace Symbol

def char : Symbol → Char
  | increment => '+'
  | decrement => '-'
  | moveLeft => '<'
  | moveRight => '>'
  | loopStart => '['
  | loopEnd => ']'
  | input => ','
  | output => '.'

/-- Every symbol is an ASCII character, so one byte stands for it in any source. -/
def byte (s : Symbol) : UInt8 := UInt8.ofNat s.char.toNat

/-- The symbol a byte stands for, if any; all other bytes are comments. -/
def ofByte? : UInt8 → Option Symbol
  | 0x2b => some increment
  | 0x2d => some decrement
  | 0x3c => some moveLeft
  | 0x3e => some moveRight
  | 0x5b => some loopStart
  | 0x5d => some loopEnd
  | 0x2c => some input
  | 0x2e => some output
  | _ => none

def name : Symbol → String
  | increment => "INCREMENT"
  | decrement => "DECREMENT"
  | moveLeft => "MOVE_LEFT"
  | moveRight => "MOVE_RIGHT"
  | loopStart => "LOOP_START"
  | loopEnd => "LOOP_END"
  | input => "INPUT"
  | output => "OUTPUT"

def ofName? : String → Option Symbol
  | "INCREMENT" => some increment
  | "DECREMENT" => some decrement
  | "MOVE_LEFT" => some moveLeft
  | "MOVE_RIGHT" => some moveRight
  | "LOOP_START" => some loopStart
  | "LOOP_END" => some loopEnd
  | "INPUT" => some input
  | "OUTPUT" => some output
  | _ => none

@[simp] theorem ofByte?_byte (s : Symbol) : ofByte? s.byte = some s := by
  cases s <;> rfl

theorem ofByte?_eq_some_iff {b : UInt8} {s : Symbol} : ofByte? b = some s ↔ b = s.byte := by
  constructor
  · intro h
    unfold ofByte? at h
    split at h <;> cases h <;> rfl
  · rintro rfl
    exact ofByte?_byte s

end Symbol
end TapeVM
