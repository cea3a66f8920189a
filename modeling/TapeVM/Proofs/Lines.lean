import TapeVM.Machine.Trace
import TapeVM.Proofs.Listings

/-! Lines of the trace. Whatever the state is that a line shows, it is one line: numbers, names and
the codes of the colours have no newlines. -/
namespace TapeVM

namespace Text

theorem newline_not_mem_paint (style : Style) {text : String} (clear : '\n' ∉ text.toList) :
    '\n' ∉ (style.paint text).toList := by
  have codes : '\n' ∉ style.opening.toList ∧ '\n' ∉ Style.reset.toList := by
    cases style <;> decide
  simp [Style.paint, codes, clear]

theorem not_mem_intercalate {c : Char} {separator : String} (apart : c ∉ separator.toList)
    {pieces : List String} (clear : ∀ piece ∈ pieces, c ∉ piece.toList) :
    c ∉ (separator.intercalate pieces).toList := by
  induction pieces with
  | nil => simp
  | cons first others ih =>
    have behind := ih fun piece member => clear piece (List.mem_cons_of_mem first member)
    cases others with
    | nil => simpa using clear first
    | cons second others =>
      rw [String.intercalate_cons_cons]
      simp only [String.toList_append, List.mem_append, not_or]
      exact ⟨⟨clear first (by simp), apart⟩, behind⟩

end Text

theorem Tape.newline_not_mem_window (tape : Tape) (cursor radius : Int) :
    '\n' ∉ (tape.window cursor radius).toList := by
  have cell (index : Nat) (value : UInt8) : '\n' ∉ (cellText cursor index value).toList := by
    have digits : '\n' ∉ (Decimal.natural value.toNat).toList :=
      (printed_natural _).not_mem (by decide)
    rw [cellText]
    split
    · exact Text.newline_not_mem_paint .cursor (by simp [digits])
    · exact digits
  rw [window]
  simp only [String.toList_append, List.mem_append, not_or]
  refine ⟨⟨?_, Text.not_mem_intercalate (by decide) fun piece member => ?_⟩, ?_⟩
  · split <;> decide
  · obtain ⟨⟨value, index⟩, -, rfl⟩ := List.mem_map.1 member
    exact cell index value
  · split <;> decide

theorem Instruction.printed_call {i : Instruction} {call : String} (named : i.call? = some call) :
    Printed call := by
  obtain ⟨name, is, rfl⟩ := Option.map_eq_some_iff.1 named
  have word : Printed name := Opcode.printed_name is
  exact ((word.append (by simp [Printed])).append (printed_integer i.operand)).append
    (by simp [Printed])

theorem Machine.exists_of_traceLine {m : Machine} {step : Int} {line : String}
    (shown : m.traceLine step = .ok line) :
    ∃ i call, m.shown? = some i ∧ i.call? = some call ∧
      line = Text.Style.faint.paint (Text.padLeft 5 (Decimal.integer step) ++ " :") ++ "  " ++
        Text.padLeft 5 (Decimal.integer m.pc) ++ "  " ++ Text.padRight 20 call ++ " " ++
        Text.Style.faint.paint ("@" ++ Decimal.natural m.cursor) ++ "  " ++
        Tape.window m.tape m.cursor traceRadius ++ "\n" := by
  rw [traceLine] at shown
  split at shown
  · cases shown
  · rename_i i found
    split at shown
    · cases shown
    · cases shown
    · rename_i call named
      cases written : m.host.write _ _ with
      | error limit =>
        rw [written] at shown
        cases shown
      | ok text =>
        rw [written] at shown
        obtain rfl : text = line := Except.ok.inj shown
        exact ⟨i, call, found, (Host.write_eq_ok_iff.1 named).2.symm,
          (Host.write_eq_ok_iff.1 written).2⟩

theorem Machine.line_traceLine {m : Machine} {step : Int} {line : String}
    (shown : m.traceLine step = .ok line) : Text.Line line := by
  obtain ⟨i, call, -, named, rfl⟩ := exists_of_traceLine shown
  have clear {text : String} (printed : Printed text) : '\n' ∉ text.toList :=
    printed.not_mem (by decide)
  have number : '\n' ∉ (Text.padLeft 5 (Decimal.integer step) ++ " :").toList :=
    clear (((printed_integer step).padLeft 5).append (by simp [Printed]))
  have place : '\n' ∉ (Text.padLeft 5 (Decimal.integer m.pc)).toList :=
    clear ((printed_integer m.pc).padLeft 5)
  have operation : '\n' ∉ (Text.padRight 20 call).toList :=
    clear ((Instruction.printed_call named).padRight 20)
  have cursor : '\n' ∉ ("@" ++ Decimal.natural m.cursor).toList :=
    clear (Printed.append (by simp [Printed]) (printed_natural m.cursor))
  have blank : '\n' ∉ " ".toList ∧ '\n' ∉ "  ".toList := by decide
  refine ⟨_, ?_, rfl⟩
  simp only [String.toList_append, List.mem_append, not_or, blank, not_false_eq_true, and_true]
  exact ⟨⟨⟨⟨Text.newline_not_mem_paint .faint number, place⟩, operation⟩,
    Text.newline_not_mem_paint .faint cursor⟩, m.tape.newline_not_mem_window m.cursor traceRadius⟩

end TapeVM
