import TapeVM.Instruction
import TapeVM.Text.Quoted
import TapeVM.Token

/-! Assembly of a program from tokens in one pass. A run of equal symbols becomes one instruction.
A bracket becomes a jump to the index of its partner; the opening one is completed when its partner
is met. Every operation can be used on its own, in any order. -/
namespace TapeVM

/-- A loop that waits for its closing bracket: where it was opened, and which instruction it is. -/
structure OpenLoop where
  location : Location
  index : Nat
  deriving DecidableEq, Repr

/-- A program under assembly. The innermost open loop comes first; `count` is the index that the
next instruction will have. -/
structure Assembly where
  tokens : Array Token
  position : Nat := 0
  openLoops : List OpenLoop := []
  count : Nat := 0
  program : Program := #[]

namespace Assembly

inductive Error where
  | unexpectedClosing (location : Location)
  | unclosed (location : Location) (remaining : Nat)
  | unknownSymbol (name : String)
  /-- A loop was closed before its opening instruction had been added to the program. -/
  | missingInstruction (index : Nat)
  deriving DecidableEq, Repr

namespace Error

def message : Error → String
  | unexpectedClosing location => "unexpected closing delimiter ']' at " ++ location.text
  | unclosed location remaining =>
    "unclosed delimiter '[' at " ++ location.text ++ "." ++
      if 1 < remaining then
        " There are " ++ Decimal.natural remaining ++ " unclosed delimiters."
      else ""
  | unknownSymbol name => Text.quoted name
  | missingInstruction _ => "list index out of range"

def numbers : Error → List Int
  | unexpectedClosing location => location.numbers
  | unclosed location remaining =>
    location.numbers ++ if 1 < remaining then [(remaining : Int)] else []
  | unknownSymbol _ | missingInstruction _ => []

def bracket? : Error → Option (Location × String)
  | unexpectedClosing location => some (location, "]")
  | unclosed location _ => some (location, "[")
  | unknownSymbol _ | missingInstruction _ => none

end Error

def nextToken (a : Assembly) : Option Token × Assembly :=
  match a.tokens[a.position]? with
  | some token => (some token, { a with position := a.position + 1 })
  | none => (none, a)

def peek? (a : Assembly) : Option Terminal :=
  a.tokens[a.position]?.map Token.terminal

def runEnd (tokens : Array Token) (terminal : Terminal) (position : Nat) : Nat :=
  if h : position < tokens.size then
    if tokens[position].terminal = terminal then runEnd tokens terminal (position + 1)
    else position
  else position
termination_by tokens.size - position

theorem le_runEnd (tokens : Array Token) (terminal : Terminal) (position : Nat) :
    position ≤ runEnd tokens terminal position := by
  fun_induction runEnd tokens terminal position <;> omega

def countRun (a : Assembly) (terminal : Terminal) : Nat × Assembly :=
  let stop := runEnd a.tokens terminal a.position
  (1 + (stop - a.position), { a with position := stop })

def openLoop (a : Assembly) (location : Location) : Int × Assembly :=
  (Instruction.unresolved, { a with openLoops := ⟨location, a.count⟩ :: a.openLoops })

/-- The innermost loop ends at the next instruction, and its first instruction jumps there. -/
def closeLoop (a : Assembly) (location : Location) : Except Error Int × Assembly :=
  match a.openLoops with
  | [] => (.error (.unexpectedClosing location), a)
  | loop :: outer =>
    if loop.index < a.program.size then
      let target : Int := a.count
      (.ok loop.index,
        { a with
          openLoops := outer
          program := a.program.modify loop.index fun i => { i with operand := target } })
    else (.error (.missingInstruction loop.index), { a with openLoops := outer })

/-- The next instruction, or none at the end of the tokens. It is not added to the program. -/
def emit (a : Assembly) : Except Error (Option Instruction) × Assembly :=
  match a.nextToken with
  | (none, a) =>
    match a.openLoops with
    | [] => (.ok none, a)
    | loop :: outer => (.error (.unclosed loop.location (outer.length + 1)), a)
  | (some token, a) =>
    match token.terminal with
    | .known .loopStart =>
      let (operand, a) := a.openLoop token.location
      (.ok (some (.ofSymbol .loopStart operand)), a)
    | .known .loopEnd =>
      match a.closeLoop token.location with
      | (.ok operand, a) => (.ok (some (.ofSymbol .loopEnd operand)), a)
      | (.error e, a) => (.error e, a)
    | .known symbol =>
      let (operand, a) := a.countRun (.known symbol)
      (.ok (some (.ofSymbol symbol operand)), a)
    | .foreign name =>
      let (_, a) := a.countRun (.foreign name)
      (.error (.unknownSymbol name), a)

def append (a : Assembly) (i : Instruction) : Assembly :=
  { a with program := a.program.push i, count := a.count + 1 }

def step (a : Assembly) : Except Error (Option Instruction) × Assembly :=
  match a.emit with
  | (.ok (some i), a) => (.ok (some i), a.append i)
  | (.ok none, a) => (.ok none, a)
  | (.error e, a) => (.error e, a)

theorem emit_progress {a b : Assembly} {i : Instruction} (h : a.emit = (.ok (some i), b)) :
    a.position < a.tokens.size ∧ a.position < b.position ∧ b.tokens = a.tokens := by
  unfold emit nextToken at h
  cases ht : a.tokens[a.position]? with
  | none =>
    simp only [ht] at h
    split at h <;> simp_all
  | some token =>
    have hlt : a.position < a.tokens.size := (Array.getElem?_eq_some_iff.1 ht).1
    refine ⟨hlt, ?_⟩
    simp only [ht] at h
    split at h
    · simp only [openLoop, Prod.mk.injEq] at h
      rw [← h.2]
      exact ⟨Nat.lt_succ_self _, rfl⟩
    · unfold closeLoop at h
      dsimp only at h
      split at h
      · rename_i heq
        split at heq
        · simp at heq
        · split at heq
          · simp only [Prod.mk.injEq] at heq h
            rw [← h.2, ← heq.2]
            exact ⟨Nat.lt_succ_self _, rfl⟩
          · simp at heq
      · simp at h
    · simp only [countRun, Prod.mk.injEq] at h
      rw [← h.2]
      exact ⟨Nat.lt_of_lt_of_le (Nat.lt_succ_self _) (le_runEnd _ _ _), rfl⟩
    · simp [countRun] at h

theorem step_progress {a b : Assembly} {i : Instruction} (h : a.step = (.ok (some i), b)) :
    a.position < a.tokens.size ∧ a.position < b.position ∧ b.tokens = a.tokens := by
  unfold step at h
  split at h
  · rename_i c hemit
    simp only [Prod.mk.injEq, Except.ok.injEq, Option.some.injEq] at h
    have := emit_progress hemit
    rw [← h.2]
    exact this
  · simp at h
  · simp at h

/-- All remaining instructions, added to the program. An error leaves the state it arose in. -/
def assemble (a : Assembly) : Except Error Program × Assembly :=
  match _h : a.step with
  | (.ok (some _), b) => b.assemble
  | (.ok none, b) => (.ok b.program, b)
  | (.error e, b) => (.error e, b)
termination_by a.tokens.size - a.position
decreasing_by
  have := step_progress _h
  rw [this.2.2]
  omega

def ofTokens (tokens : Array Token) : Assembly := { tokens }

def ofSource (source : Source) : Assembly := ofTokens source.tokens

end Assembly

def Program.ofTokens (tokens : Array Token) : Except Assembly.Error Program :=
  (Assembly.ofTokens tokens).assemble.1

def Program.ofSource (source : Source) : Except Assembly.Error Program :=
  Program.ofTokens source.tokens

end TapeVM
