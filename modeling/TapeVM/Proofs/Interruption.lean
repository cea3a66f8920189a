import TapeVM.Proofs.Beside

/-! Interruption: a read without a byte ends a run, but it takes nothing from the program. Whoever
starts the machine again after each of them gets what a run without them gives, one step later for
each. The runs are compared step by step; a read that fails is a step of one side alone, and leaves
fewer answers. -/
namespace TapeVM

/-- A console to which the same was written, and which gives only the answers with a byte. -/
structure Console.Sifted (full sifted : Console) : Prop where
  output : sifted.output = full.output
  pending : sifted.pending = full.pending.filter fun answer => answer.byte?.isSome

namespace Console

variable {full sifted : Console}

theorem Sifted.write (same : full.Sifted sifted) (content : List UInt8) :
    (full.write content).Sifted (sifted.write content) :=
  ⟨by simp [same.output], same.pending⟩

theorem Sifted.read (same : full.Sifted sifted)
    (answers : ∀ answer ∈ full.pending.head?, answer.byte?.isSome) :
    full.flush.read.2.Sifted sifted.flush.read.2 ∧
      sifted.flush.read.1 = full.flush.read.1 := by
  have pending := same.pending
  cases script : full.pending with
  | nil =>
    rw [script] at pending
    refine ⟨⟨by simp [same.output], ?_⟩, ?_⟩
    · simp [script, pending]
    · simp [read_fst, script, pending]
  | cons answer rest =>
    have gives := answers answer (by rw [script]; rfl)
    rw [script, List.filter_cons, if_pos gives] at pending
    refine ⟨⟨by simp [same.output], ?_⟩, ?_⟩
    · simp [script, pending]
    · simp [read_fst, script, pending]

theorem Sifted.skip (same : full.Sifted sifted) {answer : ReadResult} {rest : List ReadResult}
    (script : full.pending = answer :: rest) (missing : answer.byte? = none) :
    full.flush.read.2.Sifted sifted := by
  refine ⟨by simp [same.output], ?_⟩
  rw [same.pending, script, List.filter_cons_of_neg (by simp [missing])]
  simp [script]

end Console

namespace Machine

variable {m full sifted : Machine} {i : Instruction}

/-- Machines that differ in their consoles only, one of which gives only the answers with a byte. -/
def Sifts (full sifted : Machine) : Prop :=
  ∃ console, sifted = full.withConsole console ∧ full.console.Sifted console

/-- An instruction does the same on both machines, unless it is about to read an answer that fails.
-/
theorem Sifts.dispatch (sifts : full.Sifts sifted)
    (answers : i.op = .input → ∀ answer ∈ full.console.pending.head?, answer.byte?.isSome) :
    (full.dispatch i).1.Sifts (sifted.dispatch i).1 ∧
      (sifted.dispatch i).2 = (full.dispatch i).2 :=
  Beside.dispatch sifts Console.Sifted.write fun reads _ same => same.read (answers reads)

theorem sifts_of_load {host : Host} {program : Program} {tapeSize : Int} {script : List ReadResult}
    (loaded : load host program tapeSize { pending := script } = .ok full)
    (loaded' : load host program tapeSize
      { pending := script.filter fun answer => answer.byte?.isSome } = .ok sifted) :
    full.Sifts sifted := by
  obtain ⟨-, -, -, rfl⟩ := load_eq_ok_iff.1 loaded
  obtain ⟨-, -, -, rfl⟩ := load_eq_ok_iff.1 loaded'
  exact ⟨_, rfl, rfl, rfl⟩

/-- The next step reads an answer that fails. -/
def Fails (m : Machine) : Prop :=
  ∃ i answer rest, m.next? = some i ∧ i.op = .input ∧
    m.console.pending = answer :: rest ∧ answer.byte? = none

theorem answers_of_not_fails (calm : ¬ m.Fails) (found : m.next? = some i) (reads : i.op = .input) :
    ∀ answer ∈ m.console.pending.head?, answer.byte?.isSome := by
  intro answer first
  cases script : m.console.pending with
  | nil => simp [script] at first
  | cons head rest =>
    obtain rfl : head = answer := by simpa [script] using first
    cases given : head.byte? with
    | none => exact (calm ⟨i, head, rest, found, reads, script, given⟩).elim
    | some => rfl

theorem execute_of_input (m : Machine) (reads : i.op = .input) : m.execute i = m.input := by
  rw [execute, reads]

theorem input_fault {cause : InputFault} (inside : m.cursor < m.tape.size)
    (raised : m.input.2 = some (.input cause)) :
    m.console.flush.read.1.byte? = none ∧ cause = m.console.flush.read.1.failure := by
  cases given : m.console.flush.read.1.byte? with
  | some byte =>
    rw [input_of_byte given,
      onCell_of_lt (m := { m with console := m.console.flush.read.2 }) inside] at raised
    cases raised
  | none =>
    rw [input_of_none given] at raised
    exact ⟨rfl, by simpa using raised.symm⟩

/-- A read of an answer that fails takes the answer and leaves all else as it was. -/
theorem Sifts.dispatch_fails (sifts : full.Sifts sifted) (reads : i.op = .input)
    {answer : ReadResult} {rest : List ReadResult}
    (script : full.console.pending = answer :: rest) (missing : answer.byte? = none) :
    (full.dispatch i).1.Sifts sifted ∧
      (full.dispatch i).2 = some (.input answer.failure) ∧
      (full.dispatch i).1.console.pending = rest := by
  have given : full.console.flush.read.1 = answer := by simp [Console.read_fst, script]
  have executed := input_of_none (given.symm ▸ missing)
  rw [given, ← execute_of_input full reads] at executed
  obtain ⟨console, rfl, same⟩ := sifts
  rw [dispatch_eq, executed]
  exact ⟨⟨console, rfl, same.skip script missing⟩, rfl, by simp [script]⟩

theorem Sound.dispatch_input {host : Host} {p : Program} {cells : Nat} {cause : InputFault}
    (sound : m.Sound host p cells) (forward : i.Forward) (found : m.next? = some i) (calm : ¬ m.Fails)
    (raised : (m.dispatch i).2 = some (.input cause)) :
    cause = .endOfInput ∧ m.console.pending = [] ∧ (m.dispatch i).1.console.pending = [] := by
  have reads : i.op = .input := (sound.dispatch forward).fault _ raised
  have dispatched : m.dispatch i = m.input :=
    (dispatch_of_fault raised).trans (execute_of_input m reads)
  rw [dispatched] at raised ⊢
  obtain ⟨missing, rfl⟩ := input_fault sound.inside raised
  rw [input_of_none missing]
  rw [Console.read_fst, Console.pending_flush] at missing ⊢
  cases script : m.console.pending with
  | nil => exact ⟨rfl, rfl, by simp [script]⟩
  | cons answer rest =>
    have given := answers_of_not_fails calm found reads answer (by rw [script]; rfl)
    rw [script] at missing
    rw [show answer.byte? = none from missing] at given
    cases given

end Machine

namespace Run

/-- A run is interrupted if it ends at a read with an answer, but none that has a byte. -/
def Interrupted (run : Run) : Prop :=
  ∃ count before last cause, run.follow count = (before, none) ∧
    before.machine.console.pending ≠ [] ∧ before.next = (last, some (.faulted (.input cause)))

def again (run : Run) : Run := { machine := run.machine, traced := run.traced }

def totalSteps : List Run → Nat
  | [] => 0
  | run :: runs => run.steps + totalSteps runs

theorem totalSteps_append (runs more : List Run) :
    totalSteps (runs ++ more) = totalSteps runs + totalSteps more := by
  induction runs with
  | nil => simp [totalSteps]
  | cons run runs ih =>
    simp only [List.cons_append, totalSteps, ih]
    omega

/-- A machine is run again after each interruption until a run ends in another way. The runs that
were interrupted are listed, the oldest first. -/
inductive Retried : Run → List Run → Run → Ending → Prop
  | settled {run final : Run} {ending : Ending} {limit : Nat} :
    run.complete limit = some (final, ending) → ¬ run.Interrupted → Retried run [] final ending
  | again {run cut final : Run} {cuts : List Run} {cause ending : Ending} {limit : Nat} :
    run.complete limit = some (cut, cause) → run.Interrupted →
      Retried cut.again cuts final ending → Retried run (cut :: cuts) final ending

variable {run : Run}

theorem complete_of_next {next : Run} (stepped : run.next = (next, none)) (limit : Nat) :
    run.complete (limit + 1) = next.complete limit := by
  rw [complete, complete, follow_succ_of_next limit stepped]

theorem complete_of_ending {last : Run} {ending : Ending}
    (ended : run.next = (last, some ending)) : run.complete 1 = some (last.close, ending) := by
  rw [complete, follow_succ_of_ending 0 ended]

theorem interrupted_of_next {next : Run} (stepped : run.next = (next, none)) :
    run.Interrupted ↔ next.Interrupted := by
  constructor
  · rintro ⟨_ | count, before, last, cause, led, pending, raised⟩
    · obtain rfl := (Prod.mk.inj led).1
      simp [stepped] at raised
    · rw [follow_succ_of_next count stepped] at led
      exact ⟨count, before, last, cause, led, pending, raised⟩
  · rintro ⟨count, before, last, cause, led, pending, raised⟩
    exact ⟨count + 1, before, last, cause, by rw [follow_succ_of_next count stepped, led], pending,
      raised⟩

theorem interrupted_of_ending {last : Run} {ending : Ending}
    (ended : run.next = (last, some ending)) : run.Interrupted ↔
      run.machine.console.pending ≠ [] ∧ ∃ cause, ending = .faulted (.input cause) := by
  constructor
  · rintro ⟨_ | count, before, last', cause, led, pending, raised⟩
    · obtain rfl := (Prod.mk.inj led).1
      rw [ended] at raised
      exact ⟨pending, cause, by simpa using (Prod.mk.inj raised).2⟩
    · simp [follow_succ_of_ending count ended] at led
  · rintro ⟨pending, cause, rfl⟩
    exact ⟨0, run, last, cause, rfl, pending, ended⟩

theorem Retried.of_next {next final : Run} {cuts : List Run} {ending : Ending}
    (stepped : run.next = (next, none)) (retried : next.Retried cuts final ending) :
    run.Retried cuts final ending := by
  cases retried with
  | settled completed calm =>
    exact .settled ((complete_of_next stepped _).trans completed)
      (mt (interrupted_of_next stepped).1 calm)
  | again completed interrupted more =>
    exact .again ((complete_of_next stepped _).trans completed)
      ((interrupted_of_next stepped).2 interrupted) more

/-- One run leads to another over some that are interrupted, at the cost of a step for each. -/
structure Resumes (run : Run) (cuts : List Run) (calm : Run) : Prop where
  steps : totalSteps cuts + calm.steps = run.steps + cuts.length
  retry : ∀ more final ending, calm.Retried more final ending →
    run.Retried (cuts ++ more) final ending

theorem Resumes.refl (run : Run) : run.Resumes [] run :=
  ⟨by simp [totalSteps], fun _ _ _ retried => retried⟩

theorem Resumes.cut {cut calm : Run} {cuts : List Run} {cause : Machine.InputFault}
    (resumes : cut.close.again.Resumes cuts calm)
    (ended : run.next = (cut, some (.faulted (.input cause))))
    (pending : run.machine.console.pending ≠ []) (counted : cut.steps = run.steps + 1) :
    run.Resumes (cut.close :: cuts) calm := by
  refine ⟨?_, fun more final ending retried => ?_⟩
  · have fresh : cut.close.again.steps = 0 := rfl
    have closed : cut.close.steps = cut.steps := rfl
    have := resumes.steps
    simp only [totalSteps, List.length_cons]
    omega
  · exact .again (complete_of_ending ended)
      ((interrupted_of_ending ended).2 ⟨pending, cause, rfl⟩) (resumes.retry more final ending retried)

/-- A run goes along with one on which no read fails, apart from what they trace. It may have
counted fewer steps, since its count starts again after each read that fails. -/
structure Sifts (full sifted : Run) : Prop where
  machine : full.machine.Sifts sifted.machine
  traced : full.traced = sifted.traced
  steps : full.steps ≤ sifted.steps

namespace Sifts

variable {full sifted : Run} {host : Host} {p : Program} {cells : Nat} {i : Instruction}

theorem next? (sifts : full.Sifts sifted) : full.machine.next? = sifted.machine.next? := by
  obtain ⟨console, machine, -⟩ := sifts.machine
  rw [machine]
  rfl

theorem shows (sifts : full.Sifts sifted) (shows : sifted.machine.Reveals sifted.steps i) :
    full.machine.Reveals full.steps i := by
  obtain ⟨console, machine, -⟩ := sifts.machine
  rw [machine] at shows
  exact shows.of_le sifts.steps rfl rfl rfl

theorem hides {fault : Machine.Fault} (sifts : full.Sifts sifted)
    (writes : sifted.machine.host.Writes sifted.steps)
    (hides : sifted.machine.Hides sifted.steps i fault) :
    full.machine.Hides full.steps i fault := by
  obtain ⟨console, machine, -⟩ := sifts.machine
  rw [machine] at hides writes
  have earlier : full.machine.host.Writes full.steps := writes.of_natCast_le sifts.steps
  have front : (∀ n ∈ [(full.steps : Int), full.machine.pc], full.machine.host.Writes n) ↔
      ∀ n ∈ [(sifted.steps : Int), full.machine.pc], full.machine.host.Writes n := by
    rw [List.forall_mem_cons, List.forall_mem_cons (a := (sifted.steps : Int))]
    exact and_congr_left fun _ => ⟨fun _ => writes, fun _ => earlier⟩
  cases fault with
  | unnamed code => exact ⟨hides.1, front.2 hides.2⟩
  | overlong limit => exact ⟨hides.1, hides.2.imp_left (mt front.1)⟩
  | _ => exact hides.elim

theorem next (sifts : full.Sifts sifted) (calm : ¬ full.machine.Fails)
    (shown : sifted.traced = true → ∀ i, sifted.machine.next? = some i →
      sifted.machine.Reveals sifted.steps i) :
    full.next.1.Sifts sifted.next.1 ∧ full.next.2 = sifted.next.2 ∧
      full.next.1.steps + sifted.steps = full.steps + sifted.next.1.steps := by
  obtain ⟨machine, traced, ended, steps⟩ := next_alike (R := Machine.Sifts) sifts.machine
    sifts.traced sifts.next? (fun _ => sifts.shows)
    (fun i _ found traced hides => ((shown traced i found).not_hides hides).elim) fun i found _ => by
      obtain ⟨after, fault⟩ :=
        sifts.machine.dispatch (Machine.answers_of_not_fails calm (sifts.next?.trans found))
      exact ⟨after, fault.symm⟩
  exact ⟨⟨machine, traced, by have := sifts.steps; omega⟩, ended, steps⟩

/-- A read that fails ends the run, and the next one goes along with the other. -/
theorem next_fails (sifts : full.Sifts sifted) (fails : full.machine.Fails)
    (shown : sifted.traced = true → ∀ i, sifted.machine.next? = some i →
      sifted.machine.Reveals sifted.steps i) :
    ∃ cut cause, full.next = (cut, some (.faulted (.input cause))) ∧
      full.machine.console.pending ≠ [] ∧ cut.steps = full.steps + 1 ∧
      cut.close.again.machine.console.pending = full.machine.console.pending.tail ∧
      cut.close.again.Sifts sifted := by
  obtain ⟨i, answer, rest, found, reads, script, missing⟩ := fails
  have shows (traced : full.traced = true) : full.machine.Reveals full.steps i :=
    sifts.shows (shown (sifts.traced.symm.trans traced) i (sifts.next?.symm.trans found))
  obtain ⟨trace, next⟩ := next_of_reveals found shows
  obtain ⟨⟨console, machine, behind⟩, raised, left⟩ :=
    sifts.machine.dispatch_fails reads script missing
  rw [dispatch_eq, raised] at next
  refine ⟨_, _, next, by simp [script], rfl, ?_,
    ⟨⟨console, machine, ?_⟩, sifts.traced, Nat.zero_le _⟩⟩
  · simp [again, close, left, script]
  · exact ⟨by simp [again, close, behind.output], behind.pending⟩

/-- After some runs that fail at the next read, the next step is the same. -/
theorem exists_calm (sifts : full.Sifts sifted) (sound : full.machine.Sound host p cells)
    (forward : p.Forward) (shown : sifted.traced = true → ∀ i, sifted.machine.next? = some i →
      sifted.machine.Reveals sifted.steps i) :
    ∃ (cuts : List Run) (calm : Run), full.Resumes cuts calm ∧
      ¬ calm.machine.Fails ∧ calm.Sifts sifted ∧ calm.machine.Sound host p cells := by
  -- Each read that fails takes an answer away, so there are fewer of them to go.
  induction script : full.machine.console.pending generalizing full with
  | nil =>
    refine ⟨[], full, .refl full, ?_, sifts, sound⟩
    rintro ⟨_, _, _, _, _, pending, _⟩
    simp [script] at pending
  | cons answer rest ih =>
    by_cases fails : full.machine.Fails
    · obtain ⟨cut, cause, ended, pending, counted, left, behind⟩ := sifts.next_fails fails shown
      have after : cut.machine.Sound host p cells := by
        have kept := (sound.next forward).1
        rwa [ended] at kept
      obtain ⟨cuts, calm, resumes, rest⟩ := ih behind after.close (by rw [left, script]; rfl)
      exact ⟨cut.close :: cuts, calm, resumes.cut ended pending counted, rest⟩
    · exact ⟨[], full, .refl full, fails, sifts, sound⟩

end Sifts
end Run

theorem Machine.Sound.next_input {run last : Run} {host : Host} {p : Program} {cells : Nat}
    {cause : InputFault}
    (sound : run.machine.Sound host p cells) (forward : p.Forward) (calm : ¬ run.machine.Fails)
    (raised : run.next = (last, some (.faulted (.input cause)))) :
    cause = .endOfInput ∧ run.machine.console.pending = [] ∧
      last.machine.console.pending = [] := by
  obtain ⟨i, found, dispatched, -⟩ := Run.exists_dispatch raised fun _ _ hides => hides
  have member : i ∈ p := sound.program ▸ mem_of_next? found
  have exhausted :=
    sound.dispatch_input (forward i member) found calm (congrArg Prod.snd dispatched)
  rwa [dispatched] at exhausted

/-- A run in which no read fails is made up for by as many more runs as there are reads that do. -/
theorem Run.Sifts.retried {full sifted last : Run} {host : Host} {p : Program} {cells count : Nat}
    {ending : Ending} (sifts : full.Sifts sifted) (sound : full.machine.Sound host p cells)
    (forward : p.Forward) (writes : sifted.traced = true → host.Writes last.steps)
    (ended : sifted.follow count = (last, some ending)) :
    ∃ (cuts : List Run) (final : Run), full.Retried cuts final.close ending ∧ final.Sifts last ∧
      totalSteps cuts + final.steps + sifted.steps =
        full.steps + last.steps + cuts.length ∧
      ∀ cause, ending = .faulted (.input cause) →
        cause = .endOfInput ∧ final.machine.console.pending = [] := by
  -- Reads that fail are no steps of the other run, so they come before each of its steps.
  induction count generalizing full sifted with
  | zero => cases ended
  | succ count ih =>
    by_cases hidden : sifted.traced = true ∧ ∃ i fault, sifted.machine.next? = some i ∧
        sifted.machine.Hides sifted.steps i fault
    · -- What cannot be shown ends both runs.
      obtain ⟨traced, i, fault, found, hides⟩ := hidden
      have same : sifted.machine.host = host := by
        obtain ⟨console, machine, -⟩ := sifts.machine
        rw [machine]
        exact sound.host
      rw [follow_succ_of_ending count (next_of_hides found traced hides)] at ended
      cases ended
      have final := next_of_hides (sifts.next?.trans found) (sifts.traced.trans traced)
        (sifts.hides (same ▸ writes traced) hides)
      have plain (cause) : fault ≠ .input cause := by
        rintro rfl
        exact hides.elim
      refine ⟨[], full, .settled (complete_of_ending final) ?_, sifts, by simp [totalSteps], ?_⟩
      · rw [interrupted_of_ending final]
        rintro ⟨-, cause, input⟩
        exact plain cause (by simpa using input)
      · exact fun cause input => (plain cause (by simpa using input)).elim
    have clear (traced : sifted.traced = true) (i : Instruction)
        (found : sifted.machine.next? = some i) : sifted.machine.Reveals sifted.steps i := by
      rcases Machine.traceLine_of_next? found sifted.steps with ⟨-, shows, -⟩ | ⟨fault, hides, -⟩
      · exact shows
      · exact (hidden ⟨traced, i, fault, found, hides⟩).elim
    obtain ⟨cuts, calm, ⟨steps, retry⟩, settled, along, sound'⟩ :=
      sifts.exists_calm sound forward clear
    obtain ⟨after, same, counted⟩ := along.next settled clear
    rcases stepped : sifted.next with ⟨next, _ | way⟩
    · rw [stepped] at after same counted
      have kept : next.traced = sifted.traced :=
        after.traced.symm.trans ((sound'.next forward).2.1.trans along.traced)
      rw [follow_succ_of_next count stepped] at ended
      obtain ⟨more, final, retried, behind, total, exhausted⟩ :=
        ih after (sound'.next forward).1 (fun traced => writes (kept ▸ traced)) ended
      refine ⟨cuts ++ more, final, ?_, behind, ?_, exhausted⟩
      · exact retry more final.close ending (.of_next (Prod.ext rfl same) retried)
      · simp only [totalSteps_append, List.length_append]
        omega
    · rw [stepped] at after same counted
      rw [follow_succ_of_ending count stepped] at ended
      cases ended
      have final : calm.next = (calm.next.1, some ending) := Prod.ext rfl same
      have exhausted (cause) (input : ending = .faulted (.input cause)) :=
        sound'.next_input forward settled (input ▸ final)
      dsimp only at counted
      refine ⟨cuts, calm.next.1, ?_, after, by omega, ?_⟩
      · rw [← List.append_nil cuts]
        -- A run that ends at a read with answers left would be run again.
        refine retry [] _ ending (.settled (complete_of_ending final) ?_)
        rw [interrupted_of_ending final]
        rintro ⟨pending, cause, input⟩
        exact pending (exhausted cause input).2.1
      · intro cause input
        exact ⟨(exhausted cause input).1, (exhausted cause input).2.2⟩

/-- Reads that fail are transparent to whoever runs the machine again after each of them. If a run
without them ends, so do these runs, and in the same way: with the same state, the same output, and
one step more for each. A fault of the last one is of the program, or there is no more to be read.
The steps of each run are counted afresh, so if the runs are traced, the number of steps of the one
without failing reads must be one that can be written. -/
theorem failing_reads_are_transparent {host : Host} {program : Program} {tapeSize : Int}
    {script : List ReadResult} {machine clean : Machine} (shifts : program.Forward)
    (loaded : Machine.load host program tapeSize { pending := script } = .ok machine)
    (sifted : Machine.load host program tapeSize
      { pending := script.filter fun answer => answer.byte?.isSome } = .ok clean)
    {verbosity : Int} {limit : Nat} {last : Run} {ending : Run.Ending}
    (completed : (clean.start verbosity).complete limit = some (last, ending))
    (writes : 0 < verbosity → host.Writes last.steps) :
    ∃ (cuts : List Run) (final : Run), (machine.start verbosity).Retried cuts final ending ∧
      final.machine.pc = last.machine.pc ∧ final.machine.cursor = last.machine.cursor ∧
      final.machine.tape = last.machine.tape ∧
      final.machine.console.output = last.machine.console.output ∧
      Run.totalSteps cuts + final.steps = last.steps + cuts.length ∧
      (∀ fault, ending = .faulted fault → program.MayRaise host (0 < verbosity) fault) ∧
      ∀ cause, ending = .faulted (.input cause) →
        cause = .endOfInput ∧ final.machine.console.pending = [] := by
  have sound : (machine.start verbosity).machine.Sound host program tapeSize.toNat :=
    Machine.sound_of_load loaded
  have sound' : (clean.start verbosity).machine.Sound host program tapeSize.toNat :=
    Machine.sound_of_load sifted
  have along : (machine.start verbosity).Sifts (clean.start verbosity) :=
    ⟨Machine.sifts_of_load loaded sifted, rfl, Nat.le_refl 0⟩
  obtain ⟨stopped, _, ended, same⟩ := Run.complete_eq_some_iff.1 completed
  cases same
  have faults (fault) (is : ending = .faulted fault) :
      program.MayRaise host (0 < verbosity) fault := by
    simpa [Machine.start] using (sound'.follow shifts limit).2 fault (by rw [ended, is])
  have counted (traced : (clean.start verbosity).traced = true) : host.Writes stopped.steps :=
    writes (of_decide_eq_true traced)
  obtain ⟨cuts, final, retried, ⟨⟨console, behind, sifts⟩, -, -⟩, steps, exhausted⟩ :=
    along.retried sound shifts counted ended
  refine ⟨cuts, final.close, retried, ?_, ?_, ?_, ?_, ?_, faults, exhausted⟩
  · simp [Run.close, behind, Machine.withConsole]
  · simp [Run.close, behind, Machine.withConsole]
  · simp [Run.close, behind, Machine.withConsole]
  · simp [Run.close, behind, Machine.withConsole, sifts.output]
  · have fresh : (clean.start verbosity).steps = 0 ∧ (machine.start verbosity).steps = 0 := ⟨rfl, rfl⟩
    simp only [Run.close]
    omega

/-- An echo of two bytes, with text, a missing answer, an error and empty answers in between. -/
theorem failing_reads_are_transparent_echo :
    let program : Program := #[⟨.input, 1⟩, ⟨.output, 1⟩, ⟨.jumpIfNonZero, -1⟩]
    let script : List ReadResult := [.text "a", .bytes [65], .nothing, .failed { number := some 5 },
      .bytes [66, 1], .bytes []]
    let machine : Machine := { program, tape := #[0], console := { pending := script } }
    let clean : Machine :=
      { program, tape := #[0], console := { pending := [.bytes [65], .bytes [66, 1]] } }
    let last : Run := ((clean.start 0).follow 9).1.close
    program.Forward ∧ Machine.load {} program 1 { pending := script } = .ok machine ∧
      Machine.load {} program 1 { pending := script.filter fun answer => answer.byte?.isSome } =
        .ok clean ∧
      (clean.start 0).complete 9 = some (last, .faulted (.input .endOfInput)) ∧
      ((0 : Int) < 0 → Host.Writes {} last.steps) ∧
      ∃ (cuts : List Run) (final : Run),
        (machine.start 0).Retried cuts final (.faulted (.input .endOfInput)) ∧
        final.machine.pc = 0 ∧ final.machine.tape = #[66] ∧
        final.machine.console.output = [65, 66] ∧
        Run.totalSteps cuts + final.steps = 7 + cuts.length ∧
        final.machine.console.pending = [] := by
  intro program script machine clean last
  have shifts : program.Forward := by
    simp [program, Program.Forward, Instruction.Forward]
  have loaded : Machine.load {} program 1 { pending := script } = .ok machine := by rfl
  have sifted : Machine.load {} program 1
      { pending := script.filter fun answer => answer.byte?.isSome } = .ok clean := by rfl
  have completed : (clean.start 0).complete 9 =
      some (last, .faulted (.input .endOfInput)) := by rfl
  have writes : (0 : Int) < 0 → Host.Writes {} last.steps := fun traced => by cases traced
  obtain ⟨cuts, final, retried, pc, -, tape, output, steps, -, exhausted⟩ :=
    failing_reads_are_transparent shifts loaded sifted completed writes
  refine ⟨shifts, loaded, sifted, completed, writes, cuts, final, retried, ?_, ?_, ?_, ?_,
    (exhausted .endOfInput rfl).2⟩
  · rw [pc]
    rfl
  · rw [tape]
    rfl
  · rw [output]
    rfl
  · rw [steps]
    rfl

end TapeVM
