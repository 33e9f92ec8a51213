import VectorFormula.Proofs.Compilation
import VectorFormula.Proofs.Grammar.Viability
import VectorFormula.Proofs.Token.Munch
/-!
Where errors are. A reader goes from token to token as the reading of a sentence does
(`reader_traces`), and an error of syntax is where that gets stuck (`compile_earliest`).
-/
namespace VectorFormula

open Grammar Grammar.Progress
open Tokens (Leaving)
open Emission (unexpected unexpectedAhead bound expect capturedBy maxNesting)

namespace ParseError

/-- Whether an error says that the tokens do not fit the grammar. -/
def isSyntactic : ParseError → Bool
  | unexpectedToken .. | unexpectedEnd _ | trailingTokens .. => true
  | unexpectedCharacter .. | malformedNumber .. | nestingTooDeep .. | lookup .. => false

/-- Whether an error names the next of the tokens ahead, says that there is none, is the one that
comes next, or is about what was read before them. -/
inductive IsAt : Tokens → ParseError → Prop
  | done (expected : Expectation) : IsAt .done (unexpectedEnd expected)
  | bad (error : ParseError) : IsAt (.bad error) error
  | token (expected : Expectation) (lexeme : Lexeme) (rest : Tokens) :
    IsAt (.next lexeme rest) (unexpected expected lexeme)
  | trailing (lexeme : Lexeme) (rest : Tokens) (met : Operator) :
    lexeme.token = .operator met → met.isClosing = true → IsAt (.next lexeme rest)
      (trailingTokens (String.ofList lexeme.slice) (String.ofList lexeme.start))
  | nesting (limit : Nat) (ahead : Tokens) : IsAt ahead (nestingTooDeep limit ahead.remaining)
  | lookup (error : LookupError) (ahead : Tokens) :
    IsAt ahead (ParseError.lookup error ahead.remaining)

theorem IsAt.remaining_eq {ahead : Tokens} {error : ParseError} (h : error.IsAt ahead) :
    error.remaining = ahead.remaining := by
  cases h <;> rfl

end ParseError

namespace Grammar.Progress

def Stuck (progress : Progress) : Tokens → Prop
  | .done => progress.isComplete = false
  | .bad _ => True
  | .next lexeme _ => progress.step lexeme.token = none

/-- Whether an error is at some of the tokens ahead: if it is one of syntax, where the reading of
them gets stuck. -/
def Blames (progress : Progress) (ahead : Tokens) (error : ParseError) : Prop :=
  ∃ tokens rest, Tokens.Spells tokens ahead rest ∧ error.IsAt rest ∧
    (error.isSyntactic = true → ∃ next, progress.run tokens = some next ∧ next.Stuck rest)

/-- Whether the outcome of a reader is what the reading of the tokens ahead comes to: an error where
that gets stuck, or something with tokens left, before which the reading has reached a place. -/
def Traces {α : Type} (progress : Progress) (ahead : Tokens) (left : α → Tokens)
    (reaches : Progress → Tokens → Prop) : Except ParseError α → Prop
  | .error error => progress.Blames ahead error
  | .ok found => ∃ tokens next, Tokens.Spells tokens ahead (left found) ∧
    progress.run tokens = some next ∧ reaches next (left found)

structure BeforeOperand (frames : List Frame) (progress : Progress) (ahead : Tokens) : Prop where
  incomplete : progress.isComplete = false
  step : ∀ lexeme rest, ahead = .next lexeme rest →
    progress.step lexeme.token = begin frames lexeme.token

structure AfterOperand (frames : List Frame) (progress : Progress) (ahead : Tokens) : Prop where
  within : progress.frames = frames
  step : ∀ lexeme rest, ahead = .next lexeme rest →
    progress.step lexeme.token = follow frames lexeme.token

/-- Whether the reading is after all that a holder captures. -/
structure AfterFormula (holder : Option Operator) (frames : List Frame) (progress : Progress)
    (ahead : Tokens) : Prop extends AfterOperand frames progress ahead where
  stops : ahead.Yields fun met => met.isClosing = true ∨ capturedBy holder met = false

section

variable {α β : Type} {progress next : Progress} {ahead rest : Tokens} {lexeme : Lexeme}
  {left : α → Tokens} {reaches : Progress → Tokens → Prop} {outcome : Except ParseError α}
  {error : ParseError}

theorem Traces.here (found : α) (ha : left found = ahead) (h : reaches progress ahead) :
    progress.Traces ahead left reaches (.ok found) := by
  subst ha
  exact ⟨[], progress, rfl, rfl, h⟩

theorem Traces.stuck (hs : progress.Stuck ahead) (ha : error.IsAt ahead) :
    progress.Traces ahead left reaches (.error error) :=
  ⟨[], ahead, rfl, ha, fun _ => ⟨progress, rfl, hs⟩⟩

theorem Traces.placed (hs : error.isSyntactic = false) (ha : error.IsAt ahead) :
    progress.Traces ahead left reaches (.error error) :=
  ⟨[], ahead, rfl, ha, fun he => absurd (hs.symm.trans he) Bool.false_ne_true⟩

theorem Traces.after {tokens : List Token} (hs : Tokens.Spells tokens ahead rest)
    (hr : progress.run tokens = some next) (h : next.Traces rest left reaches outcome) :
    progress.Traces ahead left reaches outcome := by
  have hrun (others : List Token) : progress.run (tokens ++ others) = next.run others := by
    rw [run_append, hr, Option.bind_some]
  cases outcome with
  | error error =>
    obtain ⟨others, last, hspells, ha, hstuck⟩ := h
    refine ⟨tokens ++ others, last, Tokens.spells_append.mpr ⟨_, hs, hspells⟩, ha, fun he => ?_⟩
    obtain ⟨final, hn, hfinal⟩ := hstuck he
    exact ⟨final, (hrun others).trans hn, hfinal⟩
  | ok found =>
    obtain ⟨others, final, hspells, hn, hreaches⟩ := h
    exact ⟨tokens ++ others, final, Tokens.spells_append.mpr ⟨_, hs, hspells⟩,
      (hrun others).trans hn, hreaches⟩

theorem Traces.cons (hs : progress.step lexeme.token = some next)
    (h : next.Traces rest left reaches outcome) :
    progress.Traces (.next lexeme rest) left reaches outcome := by
  have hspells : Tokens.Spells [lexeme.token] (.next lexeme rest) rest := ⟨rfl, rfl⟩
  exact .after hspells (by rw [run_cons, hs]; rfl) h

theorem Traces.bind {middle : Progress → Tokens → Prop} {final : β → Tokens}
    {more : α → Except ParseError β} (h : progress.Traces ahead left middle outcome)
    (ht : ∀ found next, middle next (left found) →
      next.Traces (left found) final reaches (more found)) :
    progress.Traces ahead final reaches (outcome >>= more) := by
  cases outcome with
  | error error => exact h
  | ok found =>
    obtain ⟨tokens, next, hs, hr, hm⟩ := h
    exact .after hs hr (ht found next hm)

theorem Traces.bound {found : Except LookupError Function} {more : Function → Except ParseError α}
    (h : ∀ function, progress.Traces ahead left reaches (more function)) :
    progress.Traces ahead left reaches (Emission.bound ahead found >>= more) := by
  cases found with
  | error error => exact .placed rfl (.lookup error ahead)
  | ok function => exact h function

end

section

variable {frames : List Frame} {progress : Progress} {ahead : Tokens} {frame : Frame}

theorem beforeOperand (frames : List Frame) (ahead : Tokens) :
    BeforeOperand frames ⟨.operand, frames⟩ ahead :=
  ⟨Bool.and_false _, fun _ _ _ => rfl⟩

theorem afterOperand (frames : List Frame) (ahead : Tokens) :
    AfterOperand frames ⟨.ended, frames⟩ ahead :=
  ⟨rfl, fun _ _ _ => rfl⟩

theorem AfterOperand.incomplete (h : AfterOperand (frame :: frames) progress ahead) :
    progress.isComplete = false := by
  simp [isComplete, h.within]

theorem AfterFormula.yields {holder : Option Operator}
    (h : AfterFormula holder frames progress ahead) (hh : ∀ met, capturedBy holder met = true) :
    ahead.Yields (·.isClosing = true) := by
  match ahead, h with
  | .done, _ => trivial
  | .next lexeme rest, h =>
    obtain ⟨met, ht, hs⟩ := h.stops
    exact ⟨met, ht, hs.resolve_right (by simp [hh])⟩

end

end Grammar.Progress

namespace Term

/-- Whether a reader goes from token to token as the reading of a sentence does. -/
def Traced (inner : Reader) : Prop :=
  ∀ holder frames progress ahead, BeforeOperand frames progress ahead →
    progress.Traces ahead (·.val.2) (AfterFormula holder frames) (inner holder ahead)

section

variable {registry : Registry} {inner : Reader} {frames : List Frame} {progress : Progress}
  {ahead : Tokens}

private theorem expect_traces {holder : Option Operator} (frame : Frame)
    (hl : frame.isList = false) (h : AfterFormula holder (frame :: frames) progress ahead)
    (hh : ∀ met, capturedBy holder met = true) :
    progress.Traces ahead Subtype.val
      (fun next _ => next = ⟨if frame = .choice then .operand else .ended, frames⟩)
      (expect frame.closing ahead) := by
  match ahead, h with
  | .done, h => exact .stuck h.incomplete (.done _)
  | .bad error, h => exact .stuck trivial (.bad error)
  | .next lexeme rest, h =>
    obtain ⟨met, ht, hc⟩ := h.yields hh
    have hstep := h.step lexeme rest rfl
    rw [ht] at hstep
    by_cases ho : lexeme.isOperator frame.closing = true
    · have hm : met = frame.closing :=
        Token.operator.inj (ht.symm.trans (Lexeme.isOperator_iff.mp ho))
      rw [follow_of_isClosing hc, close_cons, if_pos hm, ← ht] at hstep
      rw [expect, if_pos ho]
      exact .cons hstep (.here _ rfl rfl)
    · have hm : met ≠ frame.closing := by
        rintro rfl
        exact ho (Lexeme.isOperator_iff.mpr ht)
      rw [follow_other hc hm (fun _ => hl), ← ht] at hstep
      rw [expect, if_neg ho]
      exact .stuck hstep (.token _ _ _)

private theorem items_traces (hi : Traced inner) (frame : Frame) (hl : frame.isList = true)
    {progress : Progress} {ahead : Tokens} (hp : BeforeOperand (frame :: frames) progress ahead) :
    progress.Traces ahead (·.val.2) (fun next _ => next = ⟨.ended, frames⟩)
      (items inner frame.closing ahead) := by
  have h := hi none (frame :: frames) progress ahead hp
  rw [items]
  generalize inner none ahead = found at h ⊢
  rcases found with error | ⟨⟨item, left⟩, fewer⟩
  · exact h
  obtain ⟨tokens, next, hs, hr, ha⟩ := h
  cases left with
  | done => exact .after hs hr (.stuck ha.incomplete (.done _))
  | bad error => exact .after hs hr (.stuck trivial (.bad error))
  | next lexeme rest =>
    obtain ⟨met, ht, hc⟩ := ha.yields fun _ => rfl
    have hstep := ha.step lexeme rest rfl
    refine .after hs hr ?_
    simp only
    split
    · rename_i ho
      rw [Lexeme.isOperator_iff.mp ho, follow_closing hl, ← Lexeme.isOperator_iff.mp ho] at hstep
      exact .cons hstep (.here _ rfl rfl)
    · split
      · rename_i hn ho
        rw [Lexeme.isOperator_iff.mp ho, follow_comma hl, ← Lexeme.isOperator_iff.mp ho] at hstep
        apply Traces.cons hstep
        apply (items_traces hi frame hl (beforeOperand _ rest)).bind
        rintro found next rfl
        exact .here _ rfl rfl
      · rename_i hn ho
        have hm : met ≠ frame.closing := by
          rintro rfl
          exact hn (Lexeme.isOperator_iff.mpr ht)
        have hcomma : met ≠ .comma := by
          rintro rfl
          exact ho (Lexeme.isOperator_iff.mpr ht)
        rw [ht, follow_other hc hm (absurd · hcomma), ← ht] at hstep
        exact .stuck hstep (.token _ _ _)
termination_by ahead.length
decreasing_by exact Nat.lt_of_succ_lt fewer

private theorem list_traces (hi : Traced inner) (frame : Frame) (hl : frame.isList = true)
    (frames : List Frame) (ahead : Tokens) :
    Traces ⟨.opened, frame :: frames⟩ ahead (·.val.2) (fun next _ => next = ⟨.ended, frames⟩)
      (list inner frame.closing ahead) := by
  have hincomplete : isComplete ⟨.opened, frame :: frames⟩ = false := rfl
  cases ahead with
  | done => exact items_traces hi frame hl ⟨hincomplete, nofun⟩
  | bad error => exact .stuck trivial (.bad error)
  | next lexeme rest =>
    simp only [list]
    split
    · rename_i ho
      have hstep : step ⟨.opened, frame :: frames⟩ lexeme.token = some ⟨.ended, frames⟩ := by
        rw [Lexeme.isOperator_iff.mp ho]
        exact if_pos rfl
      exact .cons hstep (.here _ rfl rfl)
    · rename_i ho
      apply items_traces hi frame hl
      refine ⟨hincomplete, ?_⟩
      rintro _ _ ⟨⟩
      exact step_opened (mt Lexeme.isOperator_iff.mpr ho)

private theorem afterName_traces (hi : Traced inner) (path : Path) (frames : List Frame)
    (ahead : Tokens) :
    Traces ⟨.named, frames⟩ ahead (·.val.2) (AfterOperand frames)
      (afterName registry inner path ahead) := by
  cases ahead with
  | done => exact .here _ rfl ⟨rfl, nofun⟩
  | bad error => exact .stuck trivial (.bad error)
  | next lexeme rest =>
    simp only [afterName]
    split
    · rename_i ho
      have hstep : step ⟨.named, frames⟩ lexeme.token = some ⟨.opened, .call :: frames⟩ := by
        rw [Lexeme.isOperator_iff.mp ho]
        rfl
      apply Traces.cons hstep
      apply (list_traces hi .call rfl frames rest).bind
      rintro ⟨⟨operands, after⟩, fewer⟩ next rfl
      exact .bound fun function => .here _ rfl (afterOperand frames after)
    · rename_i ho
      refine .here _ rfl ⟨rfl, ?_⟩
      rintro _ _ ⟨⟩
      exact step_named (mt Lexeme.isOperator_iff.mpr ho)

private theorem begin_sign {operator sign : Operator} (h : operator.asPrefix? = some sign)
    (frames : List Frame) : begin frames (.operator operator) = some ⟨.operand, frames⟩ := by
  cases operator <;> first | rfl | cases h

private theorem begin_other {operator : Operator} (hg : operator ≠ .groupStart)
    (hv : operator ≠ .vectorStart) (h : operator.asPrefix? = none) (frames : List Frame) :
    begin frames (.operator operator) = none := by
  cases operator <;> first | rfl | contradiction

private theorem prefixed_traces (hi : Traced inner) {operator : Operator} {lexeme : Lexeme}
    (hs : progress.step lexeme.token = begin frames (.operator operator)) (ahead : Tokens) :
    progress.Traces (.next lexeme ahead) (·.val.2) (AfterOperand frames)
      (prefixed registry inner operator lexeme ahead) := by
  by_cases hg : operator = .groupStart
  · subst hg
    apply Traces.cons hs
    apply (hi none (.group :: frames) _ ahead (beforeOperand _ ahead)).bind
    rintro ⟨⟨term, inside⟩, fewer⟩ next hinside
    apply (expect_traces .group rfl hinside fun _ => rfl).bind
    rintro ⟨rest, still⟩ next rfl
    exact .here _ rfl (afterOperand frames rest)
  by_cases hv : operator = .vectorStart
  · subst hv
    apply Traces.cons hs
    apply (list_traces hi .vector rfl frames ahead).bind
    rintro found next rfl
    exact .here _ rfl (afterOperand frames _)
  cases hsign : operator.asPrefix? with
  | none =>
    rw [begin_other hg hv hsign] at hs
    rw [prefixed_other hg hv hsign]
    exact .stuck hs (.token _ _ _)
  | some sign =>
    rw [begin_sign hsign] at hs
    rw [prefixed_sign hsign]
    apply Traces.cons hs
    apply (hi (some sign) frames _ ahead (beforeOperand _ ahead)).bind
    intro found next hoperand
    exact .bound fun function => .here _ rfl hoperand.toAfterOperand

private theorem operand_traces (hi : Traced inner) (hp : BeforeOperand frames progress ahead) :
    progress.Traces ahead (·.val.2) (AfterOperand frames) (operand registry inner ahead) := by
  cases ahead with
  | done => exact .stuck hp.incomplete (.done _)
  | bad error => exact .stuck trivial (.bad error)
  | next lexeme rest =>
    have hstep := hp.step lexeme rest rfl
    cases ht : lexeme.token with
    | number value =>
      simp only [operand, ht]
      exact .cons (hstep.trans (congrArg (begin frames) ht)) (.here _ rfl (afterOperand frames rest))
    | identifier path =>
      simp only [operand, ht]
      exact .cons (hstep.trans (congrArg (begin frames) ht)) (afterName_traces hi path frames rest)
    | operator operator =>
      simp only [operand, ht]
      apply (prefixed_traces hi (hstep.trans (congrArg (begin frames) ht)) rest).bind
      intro found next hafter
      exact .here _ rfl hafter

private theorem infixed_traces (hi : Traced inner) {operator : Operator} {lexeme : Lexeme}
    (hs : progress.step lexeme.token = follow frames (.operator operator))
    (hc : operator.isClosing = false) (left : Term) (ahead : Tokens) :
    progress.Traces (.next lexeme ahead) (·.val.2) (AfterOperand frames)
      (infixed registry inner operator lexeme left ahead) := by
  by_cases hq : operator = .ternaryTrue
  · subst hq
    apply Traces.cons hs
    apply (hi (some .ternaryTrue) (.choice :: frames) _ ahead (beforeOperand _ ahead)).bind
    rintro ⟨⟨yes, inside⟩, fewer⟩ next hinside
    apply (expect_traces .choice rfl hinside captures_ternary).bind
    rintro ⟨rest, still⟩ next rfl
    apply (hi (some .ternaryFalse) frames _ rest (beforeOperand _ rest)).bind
    intro found next hno
    exact .bound fun function => .here _ rfl hno.toAfterOperand
  by_cases hv : operator = .vectorStart
  · subst hv
    apply Traces.cons hs
    apply (list_traces hi .vector rfl frames ahead).bind
    rintro found next rfl
    exact .here _ rfl (afterOperand frames _)
  cases hb : operator.isBinary with
  | false =>
    rw [follow_unknown hq hv hb hc frames] at hs
    rw [infixed_other hq hv hb]
    exact .stuck hs (.token _ _ _)
  | true =>
    rw [follow_binary hb frames] at hs
    rw [infixed_binary hb]
    apply Traces.cons hs
    apply (hi (some operator) frames _ ahead (beforeOperand _ ahead)).bind
    intro found next hright
    exact .bound fun function => .here _ rfl hright.toAfterOperand

private theorem operators_traces (hi : Traced inner) (holder : Option Operator) (left : Term)
    {progress : Progress} {ahead : Tokens} (hp : AfterOperand frames progress ahead) :
    progress.Traces ahead (·.val.2) (AfterFormula holder frames)
      (operators registry inner holder left ahead) := by
  rw [operators.eq_def]
  match ahead, hp with
  | .done, hp => exact .here _ rfl ⟨hp, trivial⟩
  | .bad error, _ => exact .stuck trivial (.bad error)
  | .next lexeme rest, hp =>
    have hstep := hp.step lexeme rest rfl
    cases ht : lexeme.token with
    | number value | identifier path =>
      simp only [ht]
      exact .stuck (hstep.trans (congrArg (follow frames) ht)) (.token _ _ _)
    | operator operator =>
      simp only [ht]
      split
      · rename_i hs
        exact .here _ rfl ⟨hp, operator, ht, by simpa using hs⟩
      · rename_i hs
        simp only [Bool.or_eq_true, Bool.not_eq_true', not_or, Bool.not_eq_true] at hs
        have hfollow := hstep.trans (congrArg (follow frames) ht)
        apply (infixed_traces hi hfollow hs.1 left rest).bind
        rintro ⟨⟨term, after⟩, fewer⟩ next hafter
        apply (operators_traces hi holder term hafter).bind
        intro found last hlast
        exact .here _ rfl hlast
termination_by ahead.length
decreasing_by exact Nat.lt_succ_of_lt fewer

/-- A reader goes from token to token as the reading of a sentence does. -/
theorem reader_traces (registry : Registry) (levels : Nat) : Traced (reader registry levels) := by
  induction levels with
  | zero => exact fun _ _ _ ahead _ => .placed rfl (.nesting maxNesting ahead)
  | succ levels ih =>
    intro holder frames progress ahead hp
    apply (operand_traces ih hp).bind
    rintro ⟨⟨left, after⟩, fewer⟩ next hafter
    apply (operators_traces ih holder left hafter).bind
    intro found last hlast
    exact .here _ rfl hlast

theorem parse_blames {registry : Registry} {tokens : Tokens} {error : ParseError}
    (h : parse registry tokens = .error error) : initial.Blames tokens error := by
  have hr := reader_traces registry maxNesting none [] initial tokens (beforeOperand [] tokens)
  unfold parse at h
  match reader registry maxNesting none tokens, hr, h with
  | .error error, hr, h =>
    cases h
    exact hr
  | .ok ⟨(term, .bad error), fewer⟩, ⟨read, next, hs, hn, ha⟩, h => exact ha.stops.elim
  | .ok ⟨(term, .next lexeme rest), fewer⟩, ⟨read, next, hs, hn, ha⟩, h =>
    cases h
    -- Outside all frames nothing can be closed.
    obtain ⟨met, ht, hc⟩ := ha.yields fun _ => rfl
    have hstep : next.step lexeme.token = none := by
      rw [ha.step lexeme rest rfl, ht, follow_of_isClosing hc]
      rfl
    have htraces : initial.Traces tokens (fun _ : Term => .done) (fun _ _ => True)
        (.error (.trailingTokens (String.ofList lexeme.slice) (String.ofList lexeme.start))) :=
      .after hs hn (.stuck hstep (.trailing lexeme rest met ht hc))
    exact htraces

end

end Term

namespace Tokens

theorem not_isSyntactic_of_spells {tokens : List Token} {text : List Char} {error : ParseError}
    (h : Spells tokens (ofText text) (.bad error)) : error.isSyntactic = false := by
  induction tokens generalizing text with
  | nil =>
    rcases ofText_cases text with ⟨-, he⟩ | ⟨lexeme, left, -, he⟩ | ⟨found, hn, he⟩
    · cases he.symm.trans h
    · cases he.symm.trans h
    · cases he.symm.trans h
      cases hn <;> rfl
  | cons token tokens ih =>
    obtain ⟨lexeme, left, -, -, hs⟩ := exists_next_of_spells h
    exact ih hs

end Tokens

namespace Expression

/-- Whether a source has a token with given texts, of itself and from it on, before which the tokens
can go on to a sentence, and with which they cannot. -/
def Misfits (source found remaining : String) : Prop :=
  ∃ tokens lexeme rest, Tokens.Spells tokens (Tokens.ofText source.toList) (.next lexeme rest) ∧
    String.ofList lexeme.slice = found ∧ String.ofList lexeme.start = remaining ∧
    Viable tokens ∧ ¬ Viable (tokens ++ [lexeme.token])

def Unfinished (source : String) : Prop :=
  ∃ tokens, Token.ofText? source.toList = some tokens ∧ Viable tokens ∧ ¬ IsSentence tokens

theorem misfits_of_stuck {source : String} {tokens : List Token} {lexeme : Lexeme} {rest : Tokens}
    {progress : Progress}
    (hs : Tokens.Spells tokens (Tokens.ofText source.toList) (.next lexeme rest))
    (hr : initial.run tokens = some progress) (hn : progress.step lexeme.token = none) :
    Misfits source (String.ofList lexeme.slice) (String.ofList lexeme.start) := by
  refine ⟨tokens, lexeme, rest, hs, rfl, rfl, ?_, ?_⟩
  · rw [viable_iff, hr]
    rfl
  · rw [viable_iff, run_append, hr, Option.bind_some, run_cons, hn]
    exact Bool.false_ne_true

theorem unfinished_of_stuck {source : String} {tokens : List Token} {progress : Progress}
    (hs : Tokens.Spells tokens (Tokens.ofText source.toList) .done)
    (hr : initial.run tokens = some progress) (hn : progress.isComplete = false) :
    Unfinished source := by
  refine ⟨tokens, Token.ofText?_eq_some.mpr hs, ?_, ?_⟩
  · rw [viable_iff, hr]
    rfl
  · rw [isSentence_iff, hr]
    rintro ⟨_, ⟨⟩, hc⟩
    exact absurd (hn.symm.trans hc) Bool.false_ne_true

theorem compile_placed {registry : Registry} {source : String} {error : ParseError}
    (h : compile registry source = .error error) :
    initial.Blames (Tokens.ofText source.toList) error := by
  cases hb : Text.isAllBlank source.toList with
  | true =>
    rw [compile, hb] at h
    cases h
  | false =>
    rw [compile_eq hb] at h
    cases hp : Term.parse registry (Tokens.ofText source.toList) with
    | error found =>
      rw [hp] at h
      cases h
      exact Term.parse_blames hp
    | ok term =>
      rw [hp] at h
      cases h

theorem compile_blames {registry : Registry} {source : String} {error : ParseError}
    (h : compile registry source = .error error) (he : error.isSyntactic = true) :
    ∃ tokens rest progress, Tokens.Spells tokens (Tokens.ofText source.toList) rest ∧
      initial.run tokens = some progress ∧ progress.Stuck rest ∧ error.IsAt rest := by
  obtain ⟨tokens, rest, hs, ha, hstuck⟩ := compile_placed h
  obtain ⟨progress, hr, hn⟩ := hstuck he
  exact ⟨tokens, rest, progress, hs, hr, hn, ha⟩

/-- An error of syntax is at the first token with which the tokens of the source cannot go on to a
sentence, or at the end of a source whose tokens can, but are none yet. -/
theorem compile_earliest (registry : Registry) (source : String) :
    (∀ expected found remaining,
      compile registry source = .error (.unexpectedToken expected found remaining) →
      Misfits source found remaining) ∧
    (∀ found remaining, compile registry source = .error (.trailingTokens found remaining) →
      Misfits source found remaining) ∧
    ∀ expected, compile registry source = .error (.unexpectedEnd expected) →
      Unfinished source := by
  refine ⟨?_, ?_, ?_⟩
  · intro expected found remaining h
    obtain ⟨tokens, rest, progress, hs, hr, hstuck, hat⟩ := compile_blames h rfl
    cases hat with
    | bad => exact nomatch Tokens.not_isSyntactic_of_spells hs
    | token _ lexeme rest => exact misfits_of_stuck hs hr hstuck
  · intro found remaining h
    obtain ⟨tokens, rest, progress, hs, hr, hstuck, hat⟩ := compile_blames h rfl
    cases hat with
    | bad => exact nomatch Tokens.not_isSyntactic_of_spells hs
    | trailing lexeme rest => exact misfits_of_stuck hs hr hstuck
  · intro expected h
    obtain ⟨tokens, rest, progress, hs, hr, hstuck, hat⟩ := compile_blames h rfl
    cases hat with
    | bad => exact nomatch Tokens.not_isSyntactic_of_spells hs
    | done => exact unfinished_of_stuck hs hr hstuck

/-- A comma does not go on what a group has begun, nor does a parenthesis end what none has opened.
A call without its end is unfinished. -/
theorem compile_earliest_group :
    (compile .builtin "(a,b" = .error (.unexpectedToken (.the .groupEnd) "," ",b") ∧
      Misfits "(a,b" "," ",b") ∧
    (compile .builtin "a)" = .error (.trailingTokens ")" ")") ∧ Misfits "a)" ")" ")") ∧
    (compile .builtin "f(" = .error (.unexpectedEnd .anExpression) ∧ Unfinished "f(") := by
  have hcomma : compile .builtin "(a,b" =
      .error (.unexpectedToken (.the .groupEnd) "," ",b") := by cbv
  have htrailing : compile .builtin "a)" = .error (.trailingTokens ")" ")") := by cbv
  have hend : compile .builtin "f(" = .error (.unexpectedEnd .anExpression) := by cbv
  exact ⟨⟨hcomma, (compile_earliest .builtin "(a,b").1 _ _ _ hcomma⟩,
    ⟨htrailing, (compile_earliest .builtin "a)").2.1 _ _ htrailing⟩,
    ⟨hend, (compile_earliest .builtin "f(").2.2 _ hend⟩⟩

end Expression

end VectorFormula
