import VectorFormula.Term.Reader
/-!
How many levels a reader has left decides nothing but whether it gives up: with fewer levels it reads
the same, or reports that the nesting is too deep (`reader_cut`).
-/
namespace VectorFormula.Term

open Tokens (Leaving)
open Emission (bound expect capturedBy maxNesting)

/-- Whether an outcome is the other one, or that of nesting too deeply. -/
def Cut {α : Type} (short long : Except ParseError α) : Prop :=
  short = long ∨ ∃ remaining, short = .error (.nestingTooDeep maxNesting remaining)

private theorem Cut.refl {α : Type} (outcome : Except ParseError α) : Cut outcome outcome := .inl rfl

private theorem Cut.bind {α β : Type} {short long : Except ParseError α}
    {next other : α → Except ParseError β} (h : Cut short long)
    (hn : ∀ value, Cut (next value) (other value)) : Cut (short >>= next) (long >>= other) := by
  rcases h with rfl | ⟨remaining, rfl⟩
  · cases short with
    | error error => exact .inl rfl
    | ok value => exact hn value
  · exact .inr ⟨remaining, rfl⟩

/-- Whether a reader gives up where the other one may go on, and reads the same otherwise. -/
def Cuts (short long : Reader) : Prop :=
  ∀ holder ahead, Cut (short holder ahead) (long holder ahead)

section

variable {registry : Registry} {short long : Reader}

private theorem items_cut (h : Cuts short long) (closing : Operator) (ahead : Tokens) :
    Cut (items short closing ahead) (items long closing ahead) := by
  rw [items, items]
  rcases h none ahead with he | ⟨remaining, he⟩
  · rw [he]
    match long none ahead with
    | .error error => exact .refl _
    | .ok ⟨(item, .done), _⟩ | .ok ⟨(item, .bad _), _⟩ => exact .refl _
    | .ok ⟨(item, .next lexeme rest), fewer⟩ =>
      simp only
      split
      · exact .refl _
      · split
        · exact (items_cut h closing rest).bind fun _ => .refl _
        · exact .refl _
  · rw [he]
    exact .inr ⟨remaining, rfl⟩
termination_by ahead.length
decreasing_by exact Nat.lt_of_succ_lt fewer

private theorem list_cut (h : Cuts short long) (closing : Operator) (ahead : Tokens) :
    Cut (list short closing ahead) (list long closing ahead) := by
  cases ahead with
  | done => exact items_cut h closing .done
  | bad error => exact .refl _
  | next lexeme rest =>
    simp only [list]
    split
    · exact .refl _
    · exact items_cut h closing _

private theorem afterName_cut (h : Cuts short long) (path : Path) (ahead : Tokens) :
    Cut (afterName registry short path ahead) (afterName registry long path ahead) := by
  cases ahead with
  | done | bad _ => exact .refl _
  | next lexeme rest =>
    simp only [afterName]
    split
    · exact (list_cut h .groupEnd rest).bind fun _ => .refl _
    · exact .refl _

private theorem prefixed_cut (h : Cuts short long) (operator : Operator) (lexeme : Lexeme)
    (ahead : Tokens) :
    Cut (prefixed registry short operator lexeme ahead)
      (prefixed registry long operator lexeme ahead) := by
  by_cases hg : operator = .groupStart
  · subst hg
    exact (h none ahead).bind fun _ => .refl _
  by_cases hv : operator = .vectorStart
  · subst hv
    exact (list_cut h .vectorEnd ahead).bind fun _ => .refl _
  cases hs : operator.asPrefix? with
  | none => rw [prefixed_other hg hv hs, prefixed_other hg hv hs]; exact .refl _
  | some sign =>
    rw [prefixed_sign hs, prefixed_sign hs]
    exact (h (some sign) ahead).bind fun _ => .refl _

private theorem operand_cut (h : Cuts short long) (ahead : Tokens) :
    Cut (operand registry short ahead) (operand registry long ahead) := by
  cases ahead with
  | done | bad _ => exact .refl _
  | next lexeme rest =>
    cases ht : lexeme.token with
    | number value => simp only [operand, ht]; exact .refl _
    | identifier path => simp only [operand, ht]; exact afterName_cut h path rest
    | operator operator =>
      simp only [operand, ht]
      exact (prefixed_cut h operator lexeme rest).bind fun _ => .refl _

private theorem infixed_cut (h : Cuts short long) (operator : Operator) (lexeme : Lexeme)
    (left : Term) (ahead : Tokens) :
    Cut (infixed registry short operator lexeme left ahead)
      (infixed registry long operator lexeme left ahead) := by
  by_cases hq : operator = .ternaryTrue
  · subst hq
    apply (h (some .ternaryTrue) ahead).bind
    intro yes
    apply (Cut.refl _).bind
    intro rest
    exact (h (some .ternaryFalse) rest.val).bind fun _ => .refl _
  by_cases hv : operator = .vectorStart
  · subst hv
    exact (list_cut h .vectorEnd ahead).bind fun _ => .refl _
  cases hb : operator.isBinary with
  | false => rw [infixed_other hq hv hb, infixed_other hq hv hb]; exact .refl _
  | true =>
    rw [infixed_binary hb, infixed_binary hb]
    exact (h (some operator) ahead).bind fun _ => .refl _

private theorem operators_cut (h : Cuts short long) (holder : Option Operator) (left : Term)
    (ahead : Tokens) :
    Cut (operators registry short holder left ahead) (operators registry long holder left ahead) := by
  rw [operators.eq_def, operators.eq_def]
  match ahead with
  | .done | .bad _ => exact .refl _
  | .next lexeme rest =>
    cases ht : lexeme.token with
    | number value | identifier path => simp only [ht]; exact .refl _
    | operator operator =>
      simp only [ht]
      split
      · exact .refl _
      · apply (infixed_cut h operator lexeme left rest).bind
        rintro ⟨⟨term, after⟩, fewer⟩
        exact (operators_cut h holder term after).bind fun _ => .refl _
termination_by ahead.length
decreasing_by exact Nat.lt_succ_of_lt fewer

/-- With fewer levels left a reader reads the same, or gives up. -/
theorem reader_cut (registry : Registry) {fewer more : Nat} (h : fewer ≤ more) :
    Cuts (reader registry fewer) (reader registry more) := by
  induction fewer generalizing more with
  | zero =>
    intro holder ahead
    exact .inr ⟨_, rfl⟩
  | succ fewer ih =>
    intro holder ahead
    obtain ⟨more, rfl⟩ : ∃ levels, more = levels + 1 := ⟨more - 1, by omega⟩
    have hc : Cuts (reader registry fewer) (reader registry more) := ih (by omega)
    apply (operand_cut hc ahead).bind
    intro left
    exact (operators_cut hc holder _ _).bind fun _ => .refl _

end

end VectorFormula.Term
