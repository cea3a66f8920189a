import TapeVM.Decimal

/-! The console a machine talks to: what its reads will give, and what it has asked for so far. A
machine sees nothing of a read before it makes it. -/
namespace TapeVM

structure SystemError where
  number : Option Int := none
  reason : String := ""
  deriving DecidableEq, Repr

def SystemError.text (e : SystemError) : String :=
  match e.number with
  | some number => "[Errno " ++ Decimal.integer number ++ "] " ++ e.reason
  | none => e.reason

def SystemError.numbers (e : SystemError) : List Int := e.number.toList

/-- What one attempt to read a byte gives. Only the first byte of a longer answer is used; a stream
that is not binary answers with text. -/
inductive ReadResult where
  | bytes (content : List UInt8)
  | text (content : String)
  | nothing
  | failed (error : SystemError)
  deriving DecidableEq, Repr

inductive StreamCall where
  | write (content : List UInt8)
  | flush
  | read
  deriving DecidableEq, Repr

structure Console where
  /-- The results of the next reads; after them every read gives nothing. -/
  pending : List ReadResult := []
  /-- The calls made so far, oldest first. -/
  calls : Array StreamCall := #[]

namespace Console

def ofBytes (input : List UInt8) : Console :=
  { pending := input.map fun byte => .bytes [byte] }

def ofText (input : String) : Console :=
  { pending := input.toList.map fun c => .text (String.singleton c) }

def write (console : Console) (content : List UInt8) : Console :=
  { console with calls := console.calls.push (.write content) }

def flush (console : Console) : Console :=
  { console with calls := console.calls.push .flush }

def read (console : Console) : ReadResult × Console :=
  match console.pending with
  | [] => (.nothing, { console with calls := console.calls.push .read })
  | result :: rest => (result, { console with pending := rest, calls := console.calls.push .read })

def output (console : Console) : List UInt8 :=
  console.calls.toList.flatMap fun
    | .write content => content
    | .flush | .read => []

@[simp] theorem output_write (console : Console) (content : List UInt8) :
    (console.write content).output = console.output ++ content := by
  simp [write, output]

@[simp] theorem output_flush (console : Console) : console.flush.output = console.output := by
  simp [flush, output]

@[simp] theorem output_read (console : Console) : console.read.2.output = console.output := by
  unfold read
  split <;> simp [output]

@[simp] theorem pending_write (console : Console) (content : List UInt8) :
    (console.write content).pending = console.pending := rfl

@[simp] theorem pending_flush (console : Console) : console.flush.pending = console.pending := rfl

@[simp] theorem pending_read (console : Console) :
    console.read.2.pending = console.pending.tail := by
  unfold read
  split <;> rename_i h <;> simp [h]

end Console
end TapeVM
