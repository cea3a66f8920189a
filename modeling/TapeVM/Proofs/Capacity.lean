import TapeVM.Proofs.Acceptance
import TapeVM.Proofs.Confinement
import TapeVM.Proofs.Listings
import TapeVM.Proofs.Streams
import TapeVM.Session

/-! Capacity: a host with room for a source has room for all that comes of it. Places, lengths and
indices are no larger than the source has bytes, so every failure that has a diagnostic can be
reported with its excerpt, and every instruction can be listed and shown. -/
namespace TapeVM

open Nesting

theorem Host.writes_of_room {host : Host} {n length : Nat} (room : host.shortage? length = none)
    (le : n ≤ length) : host.Writes n :=
  writes_of_shortage?_eq_none (Int.natCast_nonneg n)
    (shortage?_of_le (Int.natCast_nonneg n) (Int.ofNat_le.2 le) room)

/-- A failure that can be reported: it has a diagnostic, and its message and the source around its
bracket can be written. -/
structure Failure.Reportable (host : Host) (source : List UInt8) (failure : Failure) : Prop where
  told : failure.diagnostic?.isSome
  message : ∀ n ∈ failure.numbers, host.Writes n
  excerpt : ∀ location token, failure.bracket? = some (location, token) →
    ∀ n ∈ Excerpt.numbers location.line location.column token (.bytes source), host.Writes n

namespace Assembly

theorem depth_le_length (l : List (Option Bracket)) : depth l ≤ l.length := by
  have opened := l.count_le_length (a := some .opening)
  rw [depth]
  omega

theorem remaining_le {tokens : Array Token} {location : Location} {remaining : Nat}
    (refused : Program.ofTokens tokens = .error (.unclosed location remaining)) :
    remaining ≤ tokens.size := by
  have verdict := verdict_ofTokens tokens
  rw [refused] at verdict
  cases verdict with
  | unclosed _ _ _ excess _ =>
    have bound := depth_le_length (Token.brackets tokens.toList)
    rw [excess, Token.brackets, List.length_map, Array.length_toList] at bound
    omega

theorem Error.line_mem_numbers {e : Error} {location : Location} {token : String}
    (bracket : e.bracket? = some (location, token)) : location.line ∈ e.numbers := by
  cases e with
  | unexpectedClosing | unclosed =>
    cases bracket
    simp [numbers, Location.numbers]
  | unknownSymbol | missingInstruction => cases bracket

theorem numbers_le {bytes before after : List UInt8} {byte : UInt8} {e : Error} {token : String}
    (refused : Program.ofSource (.bytes bytes) = .error e) (split : bytes = before ++ byte :: after)
    (bracket : e.bracket? = some (Coding.ofBytes.place before, token)) :
    ∀ n ∈ e.numbers, ∃ m : Nat, n = m ∧ m ≤ bytes.length := by
  have place : ∀ n ∈ (Coding.ofBytes.place before).numbers, ∃ m : Nat, n = m ∧ m ≤ bytes.length := by
    have feeds := before.count_le_length (a := 0x0a)
    have line : (Coding.ofBytes.openLine before).length ≤ before.length :=
      (List.rtakeWhile_suffix _ _).length_le
    have inside : before.length + 1 ≤ bytes.length := by simp [split]
    rw [Coding.place_ofBytes, Location.numbers]
    simp only [List.mem_cons, List.not_mem_nil, or_false]
    rintro n (rfl | rfl)
    · exact ⟨before.count 0x0a + 1, rfl, by omega⟩
    · exact ⟨(Coding.ofBytes.openLine before).length + 1, rfl, by omega⟩
  cases e with
  | unexpectedClosing location =>
    obtain rfl : location = Coding.ofBytes.place before := (Prod.mk.inj (Option.some.inj bracket)).1
    exact place
  | unclosed location remaining =>
    obtain rfl : location = Coding.ofBytes.place before := (Prod.mk.inj (Option.some.inj bracket)).1
    have tokens : (Source.bytes bytes).tokens.size ≤ bytes.length := by
      rw [← Array.length_toList, Source.tokens_bytes, Coding.tokens]
      exact (List.length_filterMap_le _ _).trans (by simp)
    intro n member
    rcases List.mem_append.1 member with placed | counted
    · exact place n placed
    · obtain ⟨-, member⟩ : 1 < remaining ∧ n = remaining := by
        split at counted
        · exact ⟨‹_›, List.mem_singleton.1 counted⟩
        · cases counted
      exact ⟨remaining, member, (remaining_le refused).trans tokens⟩
  | unknownSymbol | missingInstruction => cases bracket

end Assembly

namespace Engine

variable {host : Host} {engine : Engine} {bytes : List UInt8} {file : Option String}
  {tapeSize : Option Int} {console : Console} {failure : Failure} {program : Program}
  {machine : Machine} {limit : Nat}

theorem reportable_of_compile (refused : compile (.bytes bytes) file = .error failure)
    (room : host.shortage? bytes.length = none) : failure.Reportable host bytes := by
  obtain ⟨e, before, byte, after, symbol, rfl, split, is, -, bracket⟩ := exists_blamed refused
  have rejected : Program.ofSource (.bytes bytes) = .error e := by
    rw [compile] at refused
    cases outcome : Program.ofSource (.bytes bytes) with
    | ok program => simp [outcome, Except.mapError] at refused
    | error other => simpa [outcome, Except.mapError] using refused
  have small := Assembly.numbers_le rejected split bracket
  obtain rfl := Symbol.ofByte?_eq_some_iff.1 is
  have lines : (Source.bytes bytes).lines.length ≤ bytes.length := by
    have front := before.count_le_length (a := 0x0a)
    have behind := after.count_le_length (a := 0x0a)
    rw [Source.lines_bytes, List.length_map, length_splitOn, split, List.count_append,
      List.count_cons_of_ne symbol.byte_ne_feed, List.length_append, List.length_cons]
    omega
  have written {n : Int} (bounded : ∃ m : Nat, n = m ∧ m ≤ bytes.length) : host.Writes n := by
    obtain ⟨m, rfl, le⟩ := bounded
    exact Host.writes_of_room room le
  obtain ⟨message, diagnostic⟩ := Failure.diagnostic?_of_bracket bracket file
  refine ⟨?_, fun n member => written (small n member), fun location token found n member => ?_⟩
  · rcases diagnostic with named | ⟨unclosed, named⟩
    · rw [named]
      rfl
    · rw [named]
      rfl
  · rw [Failure.bracket?, bracket] at found
    obtain ⟨rfl, rfl⟩ := Prod.mk.inj (Option.some.inj found)
    rcases List.mem_cons.1 member with rfl | row
    · exact written (small _ (Assembly.Error.line_mem_numbers bracket))
    · rw [Excerpt.numbers_rows, Int.mem_range_iff] at row
      exact written ⟨n.toNat, by omega, by omega⟩

theorem canonical_of_compile {source : Source} (compiled : compile source file = .ok program) :
    program.Canonical := by
  obtain ⟨block, -, rfl⟩ := compile_eq_ok_iff.1 compiled
  exact block.canonical_program

theorem fits_of_compile (compiled : compile (.bytes bytes) file = .ok program)
    (room : host.shortage? bytes.length = none) : program.Fits host := by
  obtain ⟨block, spelled, rfl⟩ := compile_eq_ok_iff.1 compiled
  have fewer : ((Source.bytes bytes).symbols.length : Int) ≤ bytes.length :=
    Int.ofNat_le.2 (List.length_filterMap_le _ _)
  exact Program.fits_of_source (Program.ofSource_of_symbols spelled)
    (Host.shortage?_of_le (Int.natCast_nonneg _) fewer room)

theorem exists_list (compiled : compile (.bytes bytes) file = .ok program)
    (room : host.shortage? bytes.length = none) : ∃ text, list host program = .ok text := by
  have canonical := canonical_of_compile compiled
  have fits := fits_of_compile compiled room
  have listable : ∀ i ∈ program.toList, Program.Listable host i := by
    intro i member
    have inside := Array.mem_toList_iff.1 member
    obtain ⟨positive, held⟩ := fits.operand i inside
    exact ⟨Opcode.name?_isSome_iff.2 (canonical.ne_unassigned inside),
      Host.writes_of_shortage?_eq_none positive held⟩
  obtain ⟨text, listed, -⟩ :=
    Program.listing_of_listable (Host.writes_of_room fits.size (Nat.sub_le _ _)) listable
  exact ⟨text, by rw [list, listed]; rfl⟩

/-- A source that is refused is so for a reason that can be reported, or for want of room for the
tape. -/
theorem reportable_of_load
    (refused : engine.load (.bytes bytes) file tapeSize console = .error failure)
    (room : engine.host.shortage? bytes.length = none)
    (positive : 1 ≤ tapeSize.getD engine.tapeSize) :
    failure.Reportable engine.host bytes ∨ ∃ cause, failure = .loading (.shortage cause) ∧
      engine.host.shortage? (tapeSize.getD engine.tapeSize) = some cause := by
  rw [load] at refused
  cases compiled : compile (.bytes bytes) file with
  | error other =>
    obtain rfl : other = failure := by simpa [compiled] using refused
    exact .inl (reportable_of_compile compiled room)
  | ok program =>
    have fits := fits_of_compile compiled room
    simp only [compiled, Machine.load, if_neg (Int.not_lt.2 positive)] at refused
    cases tape : engine.host.shortage? (tapeSize.getD engine.tapeSize) with
    | some cause =>
      obtain rfl : Failure.loading (.shortage cause) = failure := by
        simpa [tape, Except.mapError] using refused
      exact .inr ⟨cause, rfl, rfl⟩
    | none =>
      cases found : Machine.violation? program with
      | none => simp [tape, found, Except.mapError] at refused
      | some violation =>
        obtain ⟨i, index⟩ := violation
        obtain rfl : Failure.loading (.operandOutOfRange i index) = failure := by
          simpa [tape, found, Except.mapError] using refused
        have member := List.mem_of_find?_eq_some found
        have below := (List.getElem?_eq_some_iff.1 (List.mem_zipIdx_iff_getElem?.1 member)).1
        rw [Array.length_toList] at below
        obtain ⟨sign, held⟩ :=
          fits.operand i (Array.mem_toList_iff.1 (List.fst_mem_of_mem_zipIdx member))
        refine .inl ⟨rfl, fun n shown => ?_, fun _ _ absent => by cases absent⟩
        simp only [Failure.numbers, Machine.LoadError.numbers, List.mem_cons, List.not_mem_nil,
          or_false] at shown
        rcases shown with rfl | rfl
        · exact Host.writes_of_shortage?_eq_none sign held
        · exact Host.writes_of_room fits.size (Nat.le_of_lt below)

end Engine

namespace Machine

variable {m : Machine} {fault : Fault}

theorem exists_failing {P : Machine → Prop}
    (keeps : ∀ m i, P m → m.next? = some i → P (m.dispatch i).1) (start : P m) {count : Nat}
    (ended : (m.course count).ending = some (.faulted fault)) :
    ∃ state i, P state ∧ state.next? = some i ∧ (state.dispatch i).2 = some fault := by
  induction count generalizing m with
  | zero => cases ended
  | succ count ih =>
    cases found : m.next? with
    | none => simp [course_of_outside found] at ended
    | some i =>
      have after := keeps m i start found
      rcases dispatched : m.dispatch i with ⟨next, _ | raised⟩
      · rw [course_of_dispatch found dispatched] at ended
        rw [dispatched] at after
        exact ih after ended
      · rw [course_of_fault found dispatched] at ended
        obtain rfl : raised = fault := by simpa using ended
        exact ⟨m, i, start, found, by rw [dispatched]⟩

theorem length_dispatched_le (m : Machine) (count : Nat) :
    (m.course count).dispatched.length ≤ count := by
  induction count generalizing m with
  | zero => exact Nat.le_refl 0
  | succ count ih =>
    cases found : m.next? with
    | none => simp [course_of_outside found]
    | some i =>
      rcases dispatched : m.dispatch i with ⟨next, _ | raised⟩
      · rw [course_of_dispatch found dispatched]
        exact Nat.succ_le_succ (ih next)
      · simp [course_of_fault found dispatched]

end Machine

namespace Engine

variable {engine : Engine} {bytes : List UInt8} {file : Option String} {tapeSize : Option Int}
  {console : Console} {machine : Machine} {limit : Nat}

theorem sound_of_load (loaded : engine.load (.bytes bytes) file tapeSize console = .ok machine)
    (room : engine.host.shortage? bytes.length = none) : ∃ program cells,
      machine.Sound engine.host program cells ∧ program.Canonical ∧ program.Fits engine.host ∧
        engine.host.shortage? (cells : Nat) = none ∧ machine.console = console := by
  obtain ⟨program, compiled, made⟩ := load_eq_ok_iff.1 loaded
  obtain ⟨positive, tape, -, made_eq⟩ := Machine.load_eq_ok_iff.1 made
  refine ⟨program, _, Machine.sound_of_load made, canonical_of_compile compiled,
    fits_of_compile compiled room, ?_, by rw [made_eq]⟩
  rwa [Int.toNat_of_nonneg (by omega)]

/-- All of a run can be shown if the number of its steps can be. -/
theorem shown_of_load (loaded : engine.load (.bytes bytes) file tapeSize console = .ok machine)
    (room : engine.host.shortage? bytes.length = none) (writes : engine.host.Writes limit) :
    Machine.Shown 0 (machine.course limit).dispatched := by
  obtain ⟨program, cells, sound, canonical, fits, tape, -⟩ := sound_of_load loaded room
  rintro ⟨state, step⟩ member
  have here := List.fst_mem_of_mem_zipIdx member
  obtain ⟨-, -, i, -, found⟩ := Machine.of_mem_course here
  have less := (List.getElem?_eq_some_iff.1 (List.mem_zipIdx_iff_getElem?.1 member)).1
  have few := Nat.lt_of_lt_of_le less (machine.length_dispatched_le limit)
  exact ⟨i, found, (sound.of_mem_course (Program.forward_of_canonical canonical) here).reveals
    canonical fits tape found (writes.of_natCast_le (Nat.le_of_lt few))⟩

/-- Whatever goes wrong in a run on a stream of bytes can be reported. -/
theorem reportable_of_course
    (loaded : engine.load (.bytes bytes) file tapeSize console = .ok machine)
    (room : engine.host.shortage? bytes.length = none)
    (fed : ∀ answer ∈ console.pending, answer.byte?.isSome) {fault : Machine.Fault}
    (ended : (machine.course limit).ending = some (.faulted fault)) :
    (Failure.running fault).Reportable engine.host bytes := by
  obtain ⟨program, cells, sound, canonical, fits, tape, rfl⟩ := sound_of_load loaded room
  have forward := Program.forward_of_canonical canonical
  obtain ⟨state, i, ⟨there, answers⟩, found, raised⟩ := Machine.exists_failing
    (P := fun m => m.Sound engine.host program cells ∧
      ∀ answer ∈ m.console.pending, answer.byte?.isSome)
    (fun m i ⟨here, answers⟩ found => ⟨(here.dispatch
      (forward i (here.program ▸ Machine.mem_of_next? found))).sound, fun answer member => by
        rw [m.pending_dispatch i] at member
        split at member
        · exact answers answer (List.mem_of_mem_tail member)
        · exact answers answer member⟩)
    ⟨sound, fed⟩ ended
  have member : i ∈ program := there.program ▸ Machine.mem_of_next? found
  have refuses := (there.dispatch_fault_iff (forward i member)).1 raised
  cases there.codeEnds_dispatch canonical fits member raised with
  | tape size excess =>
    obtain ⟨-, size_eq, sum⟩ := refuses
    have inside := there.inside
    rw [there.size] at size_eq inside
    obtain ⟨sign, held⟩ := fits.operand i member
    have small : (excess : Int) ≤ i.operand := by omega
    refine ⟨rfl, fun n shown => ?_, fun _ _ absent => by cases absent⟩
    simp only [Failure.numbers, Machine.Fault.numbers, List.mem_cons, List.not_mem_nil,
      or_false] at shown
    rcases shown with rfl | rfl
    · exact Host.writes_of_room tape (Nat.le_of_eq size_eq)
    · exact Host.writes_of_shortage?_eq_none (Int.natCast_nonneg _)
        (Host.shortage?_of_le (Int.natCast_nonneg _) small held)
  | input cause =>
    obtain ⟨-, missing, rfl⟩ := refuses
    rw [Console.read_fst] at missing ⊢
    cases pending : state.console.pending with
    | nil =>
      exact ⟨rfl, fun _ shown => (by cases shown), fun _ _ absent => by cases absent⟩
    | cons answer rest =>
      have gives := answers answer (by simp [pending])
      simp [pending] at missing
      simp [missing] at gives

end Engine
end TapeVM
