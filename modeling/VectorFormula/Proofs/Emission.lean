import VectorFormula.Term.Reader
/-!
Emission puts the programs of the terms that are read one after another: `reader_program` says so for
an expression inside a source, and `program_eq` for a whole source.
-/
namespace VectorFormula.Term

open Tokens (Leaving)
open Emission (bound expect capturedBy maxNesting endsInRange)

/-- Whether emission with one reader puts the programs of the terms read by the other behind what was
emitted before. -/
def Emits (emit : Emission.Reader) (inner : Reader) : Prop :=
  ∀ holder program ahead, emit holder program ahead =
    (inner holder ahead).map (Leaving.map fun term => program ++ term.program)

section

variable {α β γ δ : Type} {found : Except ParseError α} {g : γ → δ}
  {other : α → Except ParseError γ}

private theorem map_bind_eq {f : α → β} {next : β → Except ParseError δ}
    (h : ∀ value, next (f value) = (other value).map g) :
    (found.map f >>= next) = (found >>= other).map g := by
  cases found with
  | error error => rfl
  | ok value => exact h value

private theorem bind_eq_map {next : α → Except ParseError δ}
    (h : ∀ value, next value = (other value).map g) :
    (found >>= next) = (found >>= other).map g := by
  cases found with
  | error error => rfl
  | ok value => exact h value

end

variable {registry : Registry} {emit : Emission.Reader} {inner : Reader}

private theorem items_program (h : Emits emit inner) (closing : Operator) (count : Nat)
    (program : Program) (ahead : Tokens) :
    Emission.items emit closing count program ahead =
      (items inner closing ahead).map
        (Leaving.map fun terms => (count + terms.length, program ++ programs terms)) := by
  rw [Emission.items, items, h]
  match inner none ahead with
  | .error error => rfl
  | .ok ⟨(item, .next lexeme rest), fewer⟩ =>
    simp only [Except.map, Leaving.map]
    split
    · simp [programs]
    · split
      · have ih := items_program h closing (count + 1) (program ++ item.program) rest
        rw [ih]
        apply map_bind_eq
        intro more
        simp [Except.map, Leaving.map, Leaving.widen, pure, Except.pure, programs, Nat.add_assoc,
          Nat.add_comm 1]
      · rfl
  | .ok ⟨(item, .done), fewer⟩ => rfl
  | .ok ⟨(item, .bad error), fewer⟩ => rfl
termination_by ahead.length
decreasing_by exact Nat.lt_of_succ_lt fewer

private theorem list_program (h : Emits emit inner) (closing : Operator) (program : Program)
    (ahead : Tokens) :
    Emission.list emit closing program ahead =
      (list inner closing ahead).map
        (Leaving.map fun terms => (terms.length, program ++ programs terms)) := by
  cases ahead with
  | done => simp only [Emission.list, list, items_program h, Nat.zero_add]
  | bad error => rfl
  | next lexeme rest =>
    simp only [Emission.list, list]
    split
    · simp [Except.map, Leaving.map, programs]
    · simp only [items_program h, Nat.zero_add]

private theorem afterName_program (h : Emits emit inner) (path : Path) (program : Program)
    (ahead : Tokens) :
    Emission.afterName registry emit path program ahead =
      (afterName registry inner path ahead).map
        (Leaving.map fun term => program ++ term.program) := by
  cases ahead with
  | done => rfl
  | bad error => rfl
  | next lexeme rest =>
    simp only [Emission.afterName, afterName]
    split
    · rw [list_program h]
      apply map_bind_eq
      intro operands
      apply bind_eq_map
      intro function
      simp [Except.map, Leaving.map, pure, Except.pure, Term.program]
    · rfl

private theorem prefixed_program (h : Emits emit inner) (operator : Operator) (lexeme : Lexeme)
    (program : Program) (ahead : Tokens) :
    Emission.prefixed registry emit operator lexeme program ahead =
      (prefixed registry inner operator lexeme ahead).map
        (Leaving.map fun term => program ++ term.program) := by
  unfold Emission.prefixed
  split
  · simp only [prefixed]
    rw [h]
    apply map_bind_eq
    intro inside
    apply bind_eq_map
    intro rest
    simp [Except.map, Leaving.map, pure, Except.pure, Term.program]
  · simp only [prefixed]
    rw [list_program h]
    apply map_bind_eq
    intro items
    simp [Except.map, Leaving.map, pure, Except.pure, Term.program]
  · split
    · rename_i sign hs
      rw [h, prefixed_sign hs]
      apply map_bind_eq
      intro operand
      apply bind_eq_map
      intro function
      simp [Except.map, Leaving.map, pure, Except.pure, Term.program]
    · rename_i hg hv _ hs
      rw [prefixed_other hg hv hs]
      rfl

private theorem operand_program (h : Emits emit inner) (program : Program) (ahead : Tokens) :
    Emission.operand registry emit program ahead =
      (operand registry inner ahead).map (Leaving.map fun term => program ++ term.program) := by
  cases ahead with
  | done => rfl
  | bad error => rfl
  | next lexeme rest =>
    cases ht : lexeme.token with
    | number value => simp only [Emission.operand, operand, ht]; rfl
    | identifier path =>
      simp only [Emission.operand, operand, ht]
      exact afterName_program h path program rest
    | operator operator =>
      simp only [Emission.operand, operand, ht, prefixed_program h]
      apply map_bind_eq
      intro inside
      rfl

private theorem endsInRange_append_singleton (program : Program) (instruction : Instruction) :
    endsInRange (program ++ [instruction]) = endsInRange [instruction] := by
  simp [endsInRange]

private theorem symbol_eq_range {operator : Operator} :
    operator.symbol = Operator.range.symbol ↔ operator = .range := by
  cases operator <;> decide

theorem program_of_bounds? {term : Term} {bounds : Program} (h : term.bounds? = some bounds) :
    ∃ function, term.program = bounds ++ [.call Operator.range.symbol function 2] := by
  -- The cases of `bounds?` that are of another kind of term are closed by the split.
  induction term with
  | group inner ih => exact ih h
  | binary operator function left right =>
    unfold bounds? at h
    split at h <;> simp_all [Term.program]
  | apply path function operands =>
    unfold bounds? at h
    split at h <;> simp_all [Term.program, programs]
  | _ => simp [bounds?] at h

theorem endsInRange_program {term : Term} (h : term.bounds? = none) (program : Program) :
    endsInRange (program ++ term.program) = false := by
  -- The last instruction decides, and only a group ends with that of another term.
  induction term with
  | group inner ih => exact ih h
  | binary operator function left right =>
    have hne : operator ≠ .range := by rintro rfl; simp [bounds?] at h
    simp only [Term.program, ← List.append_assoc, endsInRange_append_singleton]
    simp [endsInRange, symbol_eq_range, hne]
  | apply path function operands =>
    simp only [Term.program, ← List.append_assoc, endsInRange_append_singleton]
    match operands, h with
    | [start, stop], h =>
      have hne : path.text ≠ Operator.range.symbol := by
        intro he
        simp [bounds?, he] at h
      simp [endsInRange, hne]
    | [], _ | [_], _ | _ :: _ :: _ :: _, _ => rfl
  | index target items =>
    simp only [Term.program]
    split <;> simp only [← List.append_assoc, endsInRange_append_singleton] <;> rfl
  | _ =>
    simp only [Term.program, ← List.append_assoc, endsInRange_append_singleton]
    rfl

private theorem program_index (program : Program) (target : Term) (items : List Term) :
    (if items.length == 1 && endsInRange (program ++ target.program ++ programs items) then
      (program ++ target.program ++ programs items).dropLast ++ [.indexRange]
    else program ++ target.program ++ programs items ++ [.index items.length]) =
      program ++ (index target items).program := by
  -- Only a single item can end in a call of two operands that belongs to the item as a whole.
  match items with
  | [item] =>
    simp only [programs, List.append_nil, Term.program, listBounds?]
    cases hb : item.bounds? with
    | none =>
      have hn := endsInRange_program hb (program ++ target.program)
      simp [hn, ← List.append_assoc]
    | some bounds =>
      obtain ⟨function, hp⟩ := program_of_bounds? hb
      simp [hp, endsInRange, ← List.append_assoc]
  | [] | _ :: _ :: _ => simp [Term.program, listBounds?]

private theorem infixed_program (h : Emits emit inner) (operator : Operator) (lexeme : Lexeme)
    (left : Term) (program : Program) (ahead : Tokens) :
    Emission.infixed registry emit operator lexeme (program ++ left.program) ahead =
      (infixed registry inner operator lexeme left ahead).map
        (Leaving.map fun term => program ++ term.program) := by
  unfold Emission.infixed
  split
  · simp only [infixed]
    rw [h]
    apply map_bind_eq
    intro yes
    apply bind_eq_map
    intro rest
    rw [h]
    apply map_bind_eq
    intro no
    apply bind_eq_map
    intro function
    simp [Except.map, Leaving.map, Leaving.widen, pure, Except.pure, Term.program]
  · simp only [infixed]
    rw [list_program h]
    apply map_bind_eq
    intro items
    have hp := program_index program left items.val.1
    exact congrArg Except.ok (Subtype.ext (Prod.ext hp rfl))
  · rename_i ht hv
    split
    · rename_i hb
      rw [h, infixed_binary hb]
      apply map_bind_eq
      intro right
      apply bind_eq_map
      intro function
      simp [Except.map, Leaving.map, pure, Except.pure, Term.program]
    · rename_i hb
      rw [infixed_other ht hv (eq_false_of_ne_true hb)]
      rfl

private theorem operators_program (h : Emits emit inner) (holder : Option Operator)
    (left : Term) (program : Program) (ahead : Tokens) :
    Emission.operators registry emit holder (program ++ left.program) ahead =
      (operators registry inner holder left ahead).map
        (Leaving.map fun term => program ++ term.program) := by
  rw [Emission.operators.eq_def, operators.eq_def]
  match ahead with
  | .done | .bad _ => rfl
  | .next lexeme rest =>
    cases ht : lexeme.token with
    | number value | identifier path => simp only [ht]; rfl
    | operator operator =>
      simp only [ht]
      split
      · rfl
      · -- What the operator makes of the term is the term that further operators apply to.
        rw [infixed_program h]
        apply map_bind_eq
        rintro ⟨⟨term, after⟩, fewer⟩
        have ih := operators_program h holder term program after
        simp only [Leaving.map, ih]
        apply map_bind_eq
        intro last
        rfl
termination_by ahead.length
decreasing_by exact Nat.lt_succ_of_lt fewer

theorem reader_program (registry : Registry) (levels : Nat) :
    Emits (Emission.reader registry levels) (reader registry levels) := by
  induction levels with
  | zero => intro _ _ _; rfl
  | succ levels ih =>
    intro holder program ahead
    simp only [Emission.reader, reader, operand_program ih]
    apply map_bind_eq
    rintro ⟨⟨left, after⟩, fewer⟩
    simp only [Leaving.map, operators_program ih]
    apply map_bind_eq
    intro last
    rfl

/-- The program of a source is that of the term that takes up its tokens. -/
theorem program_eq (registry : Registry) (tokens : Tokens) :
    Emission.program registry tokens = (parse registry tokens).map Term.program := by
  unfold Emission.program parse
  rw [reader_program]
  apply map_bind_eq
  rintro ⟨⟨term, after⟩, fewer⟩
  cases after <;> rfl

end VectorFormula.Term
