import Mathlib.Data.List.Forall2
import TapeVM.Failure
import TapeVM.Proofs.Linking
import TapeVM.Proofs.Numerals

/-! The verdict of assembly: which token lists are refused, and what for. Assembly keeps a stack of
open loops; here that stack is tied to the bracket structure of what has been consumed, so that the
verdict can be told from the token list alone. -/
namespace TapeVM

open Nesting

namespace Nesting

variable {l inside : List (Option Bracket)} {places : List Nat} {i j : Nat}

theorem Balanced.exists_matched (level : Balanced l) (opens : l[i]? = some (some .opening)) :
    ∃ j, Matched l i j := by
  obtain ⟨b, rfl⟩ := Block.exists_brackets level
  exact b.exists_matched opens

/-- The places of the brackets that open and are not closed, from the last one on. -/
structure Unclosed (l : List (Option Bracket)) (places : List Nat) : Prop where
  decreasing : places.Pairwise (· > ·)
  mem_iff : ∀ i, i ∈ places ↔ l[i]? = some (some .opening) ∧ ∀ j, ¬ Matched l i j

theorem Unclosed.of_balanced (level : Balanced l) : Unclosed l [] where
  decreasing := .nil
  mem_iff i := by
    refine ⟨fun member => (List.not_mem_nil member).elim, fun ⟨opens, unmatched⟩ => ?_⟩
    obtain ⟨j, matched⟩ := level.exists_matched opens
    exact (unmatched j matched).elim

theorem Unclosed.lt_length (unclosed : Unclosed l places) (member : i ∈ places) : i < l.length :=
  (List.getElem?_eq_some_iff.1 ((unclosed.mem_iff i).1 member).1).1

/-- No pair reaches over a bracket that is not closed: the depth does not come back. -/
theorem Matched.lt_of_opened (level : Balanced inside)
    (matched : Matched (l ++ some .opening :: inside) i j) (le : i ≤ l.length) : j < l.length := by
  by_contra beyond
  obtain ⟨n, rfl⟩ := Nat.exists_eq_add_of_le (Nat.le_of_not_lt beyond)
  have back := matched.depth_after
  have above := level.above n
  have start : depth ((l ++ some .opening :: inside).take i) ≤ depth l := by
    rcases Nat.lt_or_eq_of_le le with less | rfl
    · have within := matched.depth_within less (Nat.le_add_right _ _)
      rw [List.take_left] at within
      omega
    · exact Int.le_of_eq (by rw [List.take_left])
  rw [Nat.add_assoc, List.take_length_add_append, depth_append] at back
  simp only [List.take_succ_cons, depth_opening_cons] at back
  omega

theorem Unclosed.opened (outer : Unclosed l places) (level : Balanced inside) :
    Unclosed (l ++ some .opening :: inside) (l.length :: places) where
  decreasing := .cons (fun _ member => outer.lt_length member) outer.decreasing
  mem_iff i := by
    rw [List.mem_cons]
    rcases Nat.lt_trichotomy i l.length with before | rfl | behind
    · rw [List.getElem?_append_left before, or_iff_right (Nat.ne_of_lt before), outer.mem_iff]
      refine and_congr_right fun _ => forall_congr' fun j => not_congr ?_
      constructor
      · exact fun matched => matched.append_right _
      · exact fun matched => matched.of_append (matched.lt_of_opened level (Nat.le_of_lt before))
    · refine iff_of_true (.inl rfl) ⟨by simp, fun j matched => ?_⟩
      have := matched.lt_of_opened level (Nat.le_refl _)
      have := matched.lt
      omega
    · obtain ⟨n, rfl⟩ := Nat.exists_eq_add_of_lt behind
      refine iff_of_false ?_ ?_
      · rintro (same | member)
        · omega
        · have := outer.lt_length member
          omega
      · rintro ⟨opens, unmatched⟩
        rw [List.getElem?_append_right (Nat.le_of_lt behind), Nat.add_assoc, Nat.add_sub_cancel_left,
          List.getElem?_cons_succ] at opens
        obtain ⟨j, matched⟩ := level.exists_matched opens
        exact unmatched _ ((matched.cons (some .opening)).append_left l)

end Nesting

def Token.brackets (tokens : List Token) : List (Option Bracket) :=
  tokens.map fun t => t.terminal.bracket?

namespace Assembly

variable {tokens before behind : List Token} {locations : List Location} {i j : Nat}

/-- A closing bracket with more brackets closed up to it than opened. -/
def ClosesEarly (tokens : List Token) (i : Nat) : Prop :=
  (Token.brackets tokens)[i]? = some (some .closing) ∧
    depth ((Token.brackets tokens).take (i + 1)) < 0

def IsForeign (tokens : List Token) (i : Nat) : Prop :=
  ∃ name location, tokens[i]? = some ⟨.foreign name, location⟩

instance (tokens : List Token) (i : Nat) : Decidable (ClosesEarly tokens i) :=
  inferInstanceAs (Decidable (_ ∧ _))

instance (tokens : List Token) (i : Nat) : Decidable (IsForeign tokens i) :=
  match here : tokens[i]? with
  | some ⟨.foreign name, location⟩ => .isTrue ⟨name, location, here⟩
  | some ⟨.known _, _⟩ => .isFalse fun ⟨_, _, foreign⟩ => by simp [here] at foreign
  | none => .isFalse fun ⟨_, _, foreign⟩ => by simp [here] at foreign

def Defect (tokens : List Token) (i : Nat) : Prop := ClosesEarly tokens i ∨ IsForeign tokens i

def FirstDefect (tokens : List Token) (i : Nat) : Prop :=
  Defect tokens i ∧ ∀ k < i, ¬ Defect tokens k

instance (tokens : List Token) (i : Nat) : Decidable (Defect tokens i) :=
  inferInstanceAs (Decidable (_ ∨ _))

instance (tokens : List Token) (i : Nat) : Decidable (FirstDefect tokens i) :=
  inferInstanceAs (Decidable (_ ∧ _))

/-- An opening bracket without a partner, behind which every opening bracket has one. -/
def Innermost (tokens : List Token) (i : Nat) : Prop :=
  (Token.brackets tokens)[i]? = some (some .opening) ∧
    (∀ j, ¬ Matched (Token.brackets tokens) i j) ∧
    ∀ k, i < k → (Token.brackets tokens)[k]? = some (some .opening) →
      ∃ j, Matched (Token.brackets tokens) k j

/-- The open loops of a token list, innermost first: between two of them, and behind the last, all
brackets are balanced. -/
inductive Pending : List Token → List Location → Prop where
  | balanced {inside : List Token} (level : Balanced (Token.brackets inside)) : Pending inside []
  | opened {before inside : List Token} {locations : List Location} {token : Token}
      (outer : Pending before locations) (opens : token.terminal = .known .loopStart)
      (level : Balanced (Token.brackets inside)) :
      Pending (before ++ token :: inside) (token.location :: locations)

@[simp] theorem brackets_nil : Token.brackets [] = [] := rfl

@[simp] theorem length_brackets : (Token.brackets tokens).length = tokens.length := by
  simp [Token.brackets]

@[simp] theorem brackets_append (a b : List Token) :
    Token.brackets (a ++ b) = Token.brackets a ++ Token.brackets b := by
  simp [Token.brackets]

@[simp] theorem brackets_cons (t : Token) (b : List Token) :
    Token.brackets (t :: b) = t.terminal.bracket? :: Token.brackets b := rfl

theorem Pending.extend (pending : Pending before locations)
    (level : Balanced (Token.brackets behind)) : Pending (before ++ behind) locations := by
  cases pending with
  | balanced first => exact .balanced (by simpa using first.append level)
  | opened outer opens first =>
    rw [List.append_assoc]
    exact .opened outer opens (by simpa using first.append level)

theorem Pending.plain (pending : Pending before locations) {token : Token}
    (is : token.terminal.bracket? = none) : Pending (before ++ [token]) locations :=
  pending.extend (by simpa [is] using balanced_none_cons.2 balanced_nil)

theorem Pending.close {location : Location} (pending : Pending before (location :: locations))
    {token : Token} (closes : token.terminal = .known .loopEnd) :
    Pending (before ++ [token]) locations := by
  cases pending with
  | opened outer opens level =>
    rw [List.append_assoc]
    apply outer.extend
    have enclosed := level.enclose
    simpa [opens, closes, Terminal.bracket?, Symbol.bracket?] using enclosed

theorem Pending.depth_eq (pending : Pending before locations) :
    depth (Token.brackets before) = locations.length := by
  induction pending with
  | balanced level => simpa using level.level
  | opened outer opens level ih =>
    simp [opens, Terminal.bracket?, Symbol.bracket?, ih, level.level]

theorem Pending.above (pending : Pending before locations) (k : Nat) :
    0 ≤ depth ((Token.brackets before).take k) := by
  induction pending generalizing k with
  | balanced level => exact level.above k
  | @opened before inside locations token outer opens level ih =>
    have first := ih k
    have total := outer.depth_eq
    have second := level.above (k - (Token.brackets before).length - 1)
    rw [brackets_append, brackets_cons, List.take_append, depth_append]
    rcases short : k - (Token.brackets before).length with _ | rest
    · simpa using first
    · rw [short] at second
      simp only [opens, Terminal.bracket?, Symbol.bracket?, List.take_succ_cons,
        depth_opening_cons]
      simp only [Nat.add_sub_cancel] at second
      omega

theorem Pending.exists_unclosed (pending : Pending before locations) :
    ∃ places, Unclosed (Token.brackets before) places ∧
      List.Forall₂ (fun location i => before[i]? = some ⟨.known .loopStart, location⟩)
        locations places := by
  induction pending with
  | balanced level => exact ⟨[], .of_balanced level, .nil⟩
  | @opened before inside locations token outer opens level ih =>
    obtain ⟨places, unclosed, stand⟩ := ih
    have is : token.terminal.bracket? = some .opening := by rw [opens]; rfl
    have stand' : List.Forall₂ (fun location i =>
        (before ++ token :: inside)[i]? = some ⟨.known .loopStart, location⟩) locations places := by
      refine stand.imp fun location i here => ?_
      rw [List.getElem?_append_left (List.getElem?_eq_some_iff.1 here).1, here]
    refine ⟨before.length :: places, ?_, .cons ?_ stand'⟩
    · rw [brackets_append, brackets_cons, is, ← length_brackets]
      exact unclosed.opened level
    · simp [← opens]

theorem Pending.innermost {location : Location}
    (pending : Pending tokens (location :: locations)) :
    ∃ i, tokens[i]? = some ⟨.known .loopStart, location⟩ ∧ Innermost tokens i := by
  obtain ⟨_, unclosed, stand⟩ := pending.exists_unclosed
  obtain ⟨i, outer, here, -, rfl⟩ := List.forall₂_cons_left_iff.1 stand
  obtain ⟨opens, unmatched⟩ := (unclosed.mem_iff i).1 List.mem_cons_self
  refine ⟨i, here, opens, unmatched, fun k behind opensToo => ?_⟩
  by_contra unclosedToo
  -- The places are given from the last one on, so `k` cannot be one of them.
  have member := (unclosed.mem_iff k).2 ⟨opensToo, not_exists.1 unclosedToo⟩
  rcases List.mem_cons.1 member with rfl | further
  · omega
  · have := List.rel_of_pairwise_cons unclosed.decreasing further
    omega

theorem Pending.not_closesEarly (pending : Pending before locations) (behind : List Token)
    (inside : i < before.length) : ¬ ClosesEarly (before ++ behind) i := by
  rintro ⟨-, below⟩
  have := pending.above (i + 1)
  rw [brackets_append, List.take_append_of_le_length (by simpa using Nat.succ_le_of_lt inside)] at below
  omega

/-- The error that tokens lead to when loops are open at the given places, innermost first. -/
def survey (locations : List Location) : List Token → Except Error Unit
  | [] =>
    match locations with
    | [] => .ok ()
    | location :: outer => .error (.unclosed location (outer.length + 1))
  | token :: behind =>
    match token.terminal with
    | .known .loopStart => survey (token.location :: locations) behind
    | .known .loopEnd =>
      match locations with
      | [] => .error (.unexpectedClosing token.location)
      | _ :: outer => survey outer behind
    | .known _ => survey locations behind
    | .foreign name => .error (.unknownSymbol name)

theorem survey_opening {token : Token} (is : token.terminal = .known .loopStart) :
    survey locations (token :: behind) = survey (token.location :: locations) behind := by
  simp [survey, is]

theorem survey_closing {token : Token} (is : token.terminal = .known .loopEnd) :
    survey locations (token :: behind) =
      match locations with
      | [] => .error (.unexpectedClosing token.location)
      | _ :: outer => survey outer behind := by
  simp [survey, is]

theorem survey_action {token : Token} {a : Action} (is : token.terminal = .known a.symbol) :
    survey locations (token :: behind) = survey locations behind := by
  cases a <;> simp [survey, is, Action.symbol]

theorem survey_foreign {token : Token} {name : String} (is : token.terminal = .foreign name) :
    survey locations (token :: behind) = .error (.unknownSymbol name) := by
  simp [survey, is]

theorem terminal_cases (terminal : Terminal) :
    terminal = .known .loopStart ∨ terminal = .known .loopEnd ∨
      (∃ a : Action, terminal = .known a.symbol) ∨ ∃ name, terminal = .foreign name := by
  rcases terminal with symbol | name
  · rcases symbol.cases_kind with ⟨a, rfl⟩ | ⟨_ | _, rfl⟩
    · exact .inr (.inr (.inl ⟨a, rfl⟩))
    · exact .inl rfl
    · exact .inr (.inl rfl)
  · exact .inr (.inr (.inr ⟨name, rfl⟩))

/-- Only the places of the open loops matter for the error that linking ends in. -/
theorem link_eq_survey (l : Linkage) (pieces : List (Token × Nat)) :
    (l.link pieces).map (fun _ => ()) =
      survey (l.openLoops.map OpenLoop.location) (pieces.map Prod.fst) := by
  induction pieces generalizing l with
  | nil =>
    simp only [Linkage.link, Linkage.finish, List.map_nil, survey]
    cases l.openLoops <;> simp [Except.map]
  | cons piece pieces ih =>
    obtain ⟨token, n⟩ := piece
    rw [Linkage.link, List.map_cons]
    rcases terminal_cases token.terminal with is | is | ⟨a, is⟩ | ⟨name, is⟩
    · rw [Linkage.place, survey_opening is, is]
      exact ih _
    · rw [Linkage.place, survey_closing is, is]
      cases l.openLoops with
      | nil => rfl
      | cons loop outer => exact ih _
    · rw [Block.place_action l is, survey_action is]
      exact ih _
    · rw [Linkage.place, survey_foreign is, is]
      rfl

/-- Folding runs of equal tokens does not change the verdict. -/
theorem survey_stretches (locations : List Location) (tokens : List Token) :
    survey locations ((stretches Token.joins tokens).map Prod.fst) = survey locations tokens := by
  induction tokens generalizing locations with
  | nil => rfl
  | cons token behind ih =>
    have single : survey locations (token :: (stretches Token.joins behind).map Prod.fst) =
        survey locations (token :: behind) := by
      rcases terminal_cases token.terminal with is | is | ⟨a, is⟩ | ⟨name, is⟩
      · rw [survey_opening is, survey_opening is, ih]
      · rw [survey_closing is, survey_closing is]
        cases locations with
        | nil => rfl
        | cons location outer => exact ih outer
      · rw [survey_action is, survey_action is, ih]
      · rw [survey_foreign is, survey_foreign is]
    rw [← single, stretches]
    cases tail : stretches Token.joins behind with
    | nil => rfl
    | cons piece rest =>
      obtain ⟨next, n⟩ := piece
      simp only
      split
      · rename_i same
        obtain ⟨equal, plain⟩ := Terminal.joins_iff.1 same
        rcases terminal_cases token.terminal with is | is | ⟨a, is⟩ | ⟨name, is⟩
        · simp [is, Terminal.bracket?, Symbol.bracket?] at plain
        · simp [is, Terminal.bracket?, Symbol.bracket?] at plain
        · simp [survey_action is, survey_action (equal ▸ is)]
        · simp [survey_foreign is]
      · rfl

theorem ofTokens_eq_survey (tokens : Array Token) :
    (Program.ofTokens tokens).map (fun _ => ()) = survey [] tokens.toList := by
  rw [ofTokens_eq_link, link_eq_survey, survey_stretches]
  rfl

/-- The verdicts, each with what it says about the tokens. -/
inductive Verdict (tokens : List Token) : Except Error Unit → Prop where
  | closesEarly {i : Nat} {location : Location} (first : FirstDefect tokens i)
      (here : tokens[i]? = some ⟨.known .loopEnd, location⟩) :
      Verdict tokens (.error (.unexpectedClosing location))
  | foreign {i : Nat} {name : String} {location : Location} (first : FirstDefect tokens i)
      (here : tokens[i]? = some ⟨.foreign name, location⟩) :
      Verdict tokens (.error (.unknownSymbol name))
  | unclosed {i remaining : Nat} {location : Location} (clean : ∀ k, ¬ Defect tokens k)
      (innermost : Innermost tokens i) (here : tokens[i]? = some ⟨.known .loopStart, location⟩)
      (excess : depth (Token.brackets tokens) = remaining) (positive : 0 < remaining) :
      Verdict tokens (.error (.unclosed location remaining))
  | balanced (clean : ∀ k, ¬ Defect tokens k) (level : Balanced (Token.brackets tokens)) :
      Verdict tokens (.ok ())

/-- Tokens consumed without an error have no defect, whatever follows them. -/
theorem Pending.not_defect (pending : Pending before locations)
    (known : ∀ t ∈ before, ∀ name, t.terminal ≠ .foreign name) (inside : i < before.length) :
    ¬ Defect (before ++ behind) i := by
  rintro (early | ⟨name, location, here⟩)
  · exact pending.not_closesEarly behind inside early
  · rw [List.getElem?_append_left inside] at here
    exact known _ (List.mem_of_getElem? here) name rfl

/-- The invariant carried along: the stack holds the open loops of what has been consumed. -/
theorem verdict_survey (pending : Pending before locations)
    (known : ∀ t ∈ before, ∀ name, t.terminal ≠ .foreign name) :
    Verdict (before ++ behind) (survey locations behind) := by
  induction behind generalizing before locations with
  | nil =>
    have clean (k : Nat) : ¬ Defect (before ++ []) k := by
      by_cases inside : k < before.length
      · exact pending.not_defect known inside
      · rintro (⟨here, -⟩ | ⟨name, location, here⟩)
        all_goals
          have := (List.getElem?_eq_some_iff.1 here).1
          simp at this
          omega
    rw [List.append_nil] at clean ⊢
    cases locations with
    | nil =>
      cases pending with
      | balanced level => exact .balanced clean level
    | cons location outer =>
      obtain ⟨i, here, innermost⟩ := pending.innermost
      exact .unclosed clean innermost here (by simpa using pending.depth_eq) (Nat.succ_pos _)
  | cons token behind ih =>
    have here : (before ++ token :: behind)[before.length]? = some token := by simp
    have first (defect : Defect (before ++ token :: behind) before.length) :
        FirstDefect (before ++ token :: behind) before.length :=
      ⟨defect, fun k inside => pending.not_defect known inside⟩
    have known' {symbol : Symbol} (is : token.terminal = .known symbol) :
        ∀ t ∈ before ++ [token], ∀ name, t.terminal ≠ .foreign name := by
      intro t member name
      rcases List.mem_append.1 member with member | member
      · exact known t member name
      · rw [List.mem_singleton.1 member, is]
        exact Terminal.noConfusion
    rcases terminal_cases token.terminal with is | is | ⟨a, is⟩ | ⟨name, is⟩
    · rw [survey_opening is, List.append_cons]
      exact ih (.opened pending is balanced_nil) (known' is)
    · rw [survey_closing is]
      cases locations with
      | nil =>
        refine .closesEarly (first (.inl ⟨?_, ?_⟩)) (here.trans (by rw [← is]))
        · simp [← length_brackets, is, Terminal.bracket?, Symbol.bracket?]
        · have level := pending.depth_eq
          rw [brackets_append, ← length_brackets, List.take_length_add_append]
          simp [is, Terminal.bracket?, Symbol.bracket?, level]
      | cons location outer =>
        simp only
        rw [List.append_cons]
        exact ih (pending.close is) (known' is)
    · rw [survey_action is, List.append_cons]
      exact ih (pending.plain (by rw [is]; exact a.bracket?_symbol)) (known' is)
    · rw [survey_foreign is]
      have here' := here.trans (by rw [← is] : some token = some ⟨.foreign name, token.location⟩)
      exact .foreign (first (.inr ⟨name, token.location, here'⟩)) here'

theorem verdict_ofTokens (tokens : Array Token) :
    Verdict tokens.toList ((Program.ofTokens tokens).map fun _ => ()) := by
  have nothing : Pending [] [] := .balanced balanced_nil
  rw [ofTokens_eq_survey]
  exact verdict_survey nothing (by simp)

theorem FirstDefect.unique (first : FirstDefect tokens i) (second : FirstDefect tokens j) :
    i = j := by
  rcases Nat.lt_trichotomy i j with less | same | more
  · exact (second.2 i less first.1).elim
  · exact same
  · exact (first.2 j more second.1).elim

theorem eq_error_of_map {result : Except Error Program} {e : Error}
    (outcome : result.map (fun _ => ()) = .error e) : result = .error e := by
  cases result with
  | ok program => cases outcome
  | error e' =>
    cases outcome
    rfl

theorem ofTokens_of_closing {tokens : Array Token} {location : Location}
    (first : FirstDefect tokens.toList i)
    (here : tokens.toList[i]? = some ⟨.known .loopEnd, location⟩) :
    Program.ofTokens tokens = .error (.unexpectedClosing location) := by
  have verdict := verdict_ofTokens tokens
  generalize outcome : (Program.ofTokens tokens).map (fun _ => ()) = result at verdict
  cases verdict with
  | balanced clean level => exact (clean i first.1).elim
  | unclosed clean innermost here' excess positive => exact (clean i first.1).elim
  | closesEarly first' here' =>
    obtain rfl := first.unique first'
    obtain ⟨-, rfl⟩ := Token.mk.inj (Option.some.inj (here.symm.trans here'))
    exact eq_error_of_map outcome
  | foreign first' here' =>
    obtain rfl := first.unique first'
    cases here.symm.trans here'

theorem ofTokens_of_foreign {tokens : Array Token} {name : String} {location : Location}
    (first : FirstDefect tokens.toList i)
    (here : tokens.toList[i]? = some ⟨.foreign name, location⟩) :
    Program.ofTokens tokens = .error (.unknownSymbol name) := by
  have verdict := verdict_ofTokens tokens
  generalize outcome : (Program.ofTokens tokens).map (fun _ => ()) = result at verdict
  cases verdict with
  | balanced clean level => exact (clean i first.1).elim
  | unclosed clean innermost here' excess positive => exact (clean i first.1).elim
  | closesEarly first' here' =>
    obtain rfl := first.unique first'
    cases here.symm.trans here'
  | foreign first' here' =>
    obtain rfl := first.unique first'
    obtain ⟨same, -⟩ := Token.mk.inj (Option.some.inj (here.symm.trans here'))
    obtain rfl := Terminal.foreign.inj same
    exact eq_error_of_map outcome

theorem ofTokens_of_unclosed {tokens : Array Token} {remaining : Nat}
    (clean : ∀ k, ¬ Defect tokens.toList k) (positive : 0 < remaining)
    (excess : depth (Token.brackets tokens.toList) = remaining) :
    ∃ i location, Innermost tokens.toList i ∧
      tokens.toList[i]? = some ⟨.known .loopStart, location⟩ ∧
      Program.ofTokens tokens = .error (.unclosed location remaining) := by
  have verdict := verdict_ofTokens tokens
  generalize outcome : (Program.ofTokens tokens).map (fun _ => ()) = result at verdict
  cases verdict with
  | balanced clean level =>
    have := level.level
    omega
  | closesEarly first here => exact (clean _ first.1).elim
  | foreign first here => exact (clean _ first.1).elim
  | unclosed clean innermost here excess' positive' =>
    obtain rfl := Int.ofNat_inj.1 (excess.symm.trans excess')
    exact ⟨_, _, innermost, here, eq_error_of_map outcome⟩

/-- Exactly the balanced token lists without foreign symbols are accepted. -/
theorem exists_ofTokens_iff {tokens : Array Token} :
    (∃ program, Program.ofTokens tokens = .ok program) ↔
      (∀ k, ¬ Defect tokens.toList k) ∧ depth (Token.brackets tokens.toList) = 0 := by
  have verdict := verdict_ofTokens tokens
  constructor
  · rintro ⟨program, outcome⟩
    rw [outcome] at verdict
    cases verdict with
    | balanced clean level => exact ⟨clean, level.level⟩
  · rintro ⟨clean, level⟩
    cases outcome : Program.ofTokens tokens with
    | ok program => exact ⟨program, rfl⟩
    | error e =>
      rw [outcome] at verdict
      cases verdict with
      | closesEarly first here => exact (clean _ first.1).elim
      | foreign first here => exact (clean _ first.1).elim
      | unclosed _ innermost here excess positive => omega

theorem exists_symbols_of_known (known : ∀ t ∈ tokens, ∀ name, t.terminal ≠ .foreign name) :
    ∃ symbols : List Symbol, tokens.map Token.terminal = symbols.map .known := by
  induction tokens with
  | nil => exact ⟨[], rfl⟩
  | cons token behind ih =>
    obtain ⟨symbols, spelled⟩ := ih fun t member => known t (List.mem_cons_of_mem _ member)
    cases is : token.terminal with
    | known symbol => exact ⟨symbol :: symbols, by simp [is, spelled]⟩
    | foreign name => exact (known token (by simp) name is).elim

theorem brackets_of_symbols {symbols : List Symbol}
    (spelled : tokens.map Token.terminal = symbols.map .known) :
    Token.brackets tokens = symbols.map Symbol.bracket? := by
  have same := congrArg (List.map Terminal.bracket?) spelled
  simpa [Token.brackets, Function.comp_def, Terminal.bracket?] using same

theorem exists_block_of_ok {tokens : Array Token} {program : Program}
    (accepted : Program.ofTokens tokens = .ok program) :
    ∃ b : Block Action, tokens.toList.map Token.terminal = b.symbols.map .known ∧
      program = b.program := by
  have verdict := verdict_ofTokens tokens
  rw [accepted] at verdict
  cases verdict with
  | balanced clean level =>
    have known (t : Token) (member : t ∈ tokens.toList) (name : String) :
        t.terminal ≠ .foreign name := by
      intro is
      obtain ⟨i, here⟩ := List.getElem?_of_mem member
      exact clean i (.inr ⟨name, t.location, here.trans (by rw [← is])⟩)
    obtain ⟨symbols, spelled⟩ := exists_symbols_of_known known
    rw [brackets_of_symbols spelled] at level
    obtain ⟨b, found⟩ := Block.exists_ofSymbols? level
    obtain rfl := Block.ofSymbols?_eq_some_iff.1 found
    have computed := Program.ofTokens_of_symbols spelled
    rw [accepted] at computed
    exact ⟨b, spelled, Except.ok.inj computed⟩

/-- The first defect decides: a bracket that closes early is reported where it stands, and a symbol
that does not exist by its name. Without a defect the innermost open loop is reported, together with
the number of open loops if there are several; and with none open there is a program. Places may
have any numbers; a report is not made if the host has a limit on digits and one of its numbers
exceeds it. -/
theorem assembly_verdict (host : Host) (tokens : Array Token) (file : Option String) :
    let result := (Program.ofTokens tokens).mapError fun e => (Failure.assembling e file).raised host
    (∀ i location, FirstDefect tokens.toList i → tokens[i]? = some ⟨.known .loopEnd, location⟩ →
      (host.Writes location.line ∧ host.Writes location.column →
        ∃ failure, result = .error failure ∧
          failure.diagnostic? = some (.parse
            ("unexpected closing delimiter ']' at " ++
              (Decimal.integer location.line ++ ":" ++ Decimal.integer location.column)) file
            ⟨some location.line, some location.column, some "]"⟩)) ∧
      (¬ (host.Writes location.line ∧ host.Writes location.column) →
        ∃ limit, host.digits = some limit ∧ result = .error (.overlong limit))) ∧
    (∀ i name location, FirstDefect tokens.toList i →
      tokens[i]? = some ⟨.foreign name, location⟩ →
      result = .error (.assembling (.unknownSymbol name) file)) ∧
    ((∀ i, ¬ Defect tokens.toList i) →
      ∀ k : Nat, 0 < k → depth (Token.brackets tokens.toList) = k →
      ∃ i location, Innermost tokens.toList i ∧
        tokens[i]? = some ⟨.known .loopStart, location⟩ ∧
        let written := host.Writes location.line ∧ host.Writes location.column ∧
          (1 < k → host.Writes k)
        (written → ∃ failure, result = .error failure ∧
          failure.diagnostic? = some (.incomplete
            ("unclosed delimiter '[' at " ++
              (Decimal.integer location.line ++ ":" ++ Decimal.integer location.column) ++ "." ++
              if 1 < k then " There are " ++ Decimal.natural k ++ " unclosed delimiters." else "")
            file ⟨some location.line, some location.column, some "["⟩ (some k))) ∧
        (¬ written → ∃ limit, host.digits = some limit ∧ result = .error (.overlong limit))) ∧
    ((∃ program, result = .ok program) ↔
      (∀ i, ¬ Defect tokens.toList i) ∧ depth (Token.brackets tokens.toList) = 0) := by
  intro result
  have reported {e : Error} (outcome : Program.ofTokens tokens = .error e)
      (written : ∀ n ∈ e.numbers, host.Writes n) : result = .error (.assembling e file) := by
    have raised : (Failure.assembling e file).raised host = _ := Failure.raised_of_writes written
    simp [result, outcome, Except.mapError, raised]
  have unreported {e : Error} (outcome : Program.ofTokens tokens = .error e)
      (refused : ¬ ∀ n ∈ e.numbers, host.Writes n) :
      ∃ limit, host.digits = some limit ∧ result = .error (.overlong limit) := by
    obtain ⟨limit, limited, raised⟩ : ∃ limit, host.digits = some limit ∧
        (Failure.assembling e file).raised host = .overlong limit :=
      Failure.exists_raised_eq_overlong refused
    exact ⟨limit, limited, by simp [result, outcome, Except.mapError, raised]⟩
  simp only [← Array.getElem?_toList]
  refine ⟨?_, ?_, ?_, ?_⟩
  · intro i location first here
    have outcome := ofTokens_of_closing first here
    have numbers : (∀ n ∈ (Error.unexpectedClosing location).numbers, host.Writes n) ↔
        host.Writes location.line ∧ host.Writes location.column := by
      simp [Error.numbers, Location.numbers]
    rw [← numbers]
    exact ⟨fun written => ⟨_, reported outcome written, rfl⟩, unreported outcome⟩
  · intro i name location first here
    exact reported (ofTokens_of_foreign first here) fun n member => by cases member
  · intro clean k positive excess
    obtain ⟨i, location, innermost, here, outcome⟩ := ofTokens_of_unclosed clean positive excess
    have numbers : (∀ n ∈ (Error.unclosed location k).numbers, host.Writes n) ↔
        host.Writes location.line ∧ host.Writes location.column ∧ (1 < k → host.Writes k) := by
      by_cases several : 1 < k <;> simp [Error.numbers, Location.numbers, several]
    refine ⟨i, location, innermost, here, ?_⟩
    rw [← numbers]
    exact ⟨fun written => ⟨_, reported outcome written, rfl⟩, unreported outcome⟩
  · rw [← exists_ofTokens_iff]
    cases outcome : Program.ofTokens tokens <;> simp [result, outcome, Except.mapError]

/-- A bracket that closes early hides a foreign symbol behind it. -/
theorem assembly_verdict_early :
    let tokens : Array Token := #[⟨.known .loopStart, ⟨1, 1⟩⟩, ⟨.known .loopEnd, ⟨1, 2⟩⟩,
      ⟨.known .loopEnd, ⟨2, 7⟩⟩, ⟨.foreign "PAUSE", ⟨3, 1⟩⟩]
    FirstDefect tokens.toList 2 ∧
      ∃ failure,
        (Program.ofTokens tokens).mapError
          (fun e => (Failure.assembling e (some "loop.bf")).raised {}) = .error failure ∧
        failure.diagnostic? = some (.parse
          ("unexpected closing delimiter ']' at " ++
            (Decimal.integer 2 ++ ":" ++ Decimal.integer 7)) (some "loop.bf")
          ⟨some 2, some 7, some "]"⟩) := by
  intro tokens
  have first : FirstDefect tokens.toList 2 := by decide
  have written : Host.Writes {} 2 ∧ Host.Writes {} 7 :=
    ⟨Host.writes_of_natAbs_le (by decide), Host.writes_of_natAbs_le (by decide)⟩
  exact ⟨first, ((assembly_verdict {} tokens (some "loop.bf")).1 2 ⟨2, 7⟩ first rfl).1 written⟩

end Assembly

theorem Program.ofSource_eq_ok_iff {source : Source} {program : Program} :
    Program.ofSource source = .ok program ↔
      ∃ b : Block Action, b.symbols = source.symbols ∧ program = b.program := by
  constructor
  · intro accepted
    obtain ⟨b, spelled, rfl⟩ := Assembly.exists_block_of_ok accepted
    rw [source.terminals_tokens] at spelled
    have known : Function.Injective Terminal.known := fun _ _ same => Terminal.known.inj same
    exact ⟨b, (List.map_injective_iff.2 known spelled).symm, rfl⟩
  · rintro ⟨b, spelled, rfl⟩
    exact Program.ofSource_of_symbols spelled

end TapeVM
