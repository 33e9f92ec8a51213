import VectorFormula.Term
import VectorFormula.Emission
/-!
Reading terms from tokens by priorities. The steps are those of emission, with a term in place of
the program that is emitted for it.
-/
namespace VectorFormula.Term

open Tokens (Leaving)
open Emission (unexpected unexpectedAhead bound expect capturedBy maxNesting)

/-- A way to read one term, as the operand of an operator if one is given. -/
abbrev Reader :=
  Option Operator → (ahead : Tokens) → Except ParseError (Leaving ahead.length Term)

def items (inner : Reader) (closing : Operator) (ahead : Tokens) :
    Except ParseError (Leaving ahead.length (List Term)) :=
  match inner none ahead with
  | .error error => .error error
  | .ok ⟨(item, .next lexeme rest), fewer⟩ =>
    if lexeme.isOperator closing then .ok ⟨([item], rest), Nat.lt_of_succ_lt fewer⟩
    else if lexeme.isOperator .comma then do
      let found ← items inner closing rest
      return (found.widen (Nat.le_of_lt (Nat.lt_of_succ_lt fewer))).map (item :: ·)
    else .error (unexpected (.commaOr closing) lexeme)
  | .ok ⟨(_, .done), _⟩ => .error (.unexpectedEnd (.commaOr closing))
  | .ok ⟨(_, .bad error), _⟩ => .error error
termination_by ahead.length
decreasing_by exact Nat.lt_of_succ_lt fewer

def list (inner : Reader) (closing : Operator) :
    (ahead : Tokens) → Except ParseError (Leaving ahead.length (List Term))
  | .bad error => .error error
  | .done => items inner closing .done
  | .next lexeme rest =>
    if lexeme.isOperator closing then .ok ⟨([], rest), Nat.lt_succ_self _⟩
    else items inner closing (.next lexeme rest)

def afterName (registry : Registry) (inner : Reader) (path : Path) :
    (ahead : Tokens) → Except ParseError (Leaving (ahead.length + 1) Term)
  | .bad error => .error error
  | .done => .ok ⟨(named path, .done), Nat.lt_succ_self _⟩
  | .next lexeme rest =>
    if lexeme.isOperator .groupStart then do
      let ⟨(operands, ahead), fewer⟩ ← list inner .groupEnd rest
      let function ← bound ahead (registry.lookup path.text operands.length)
      return ⟨(apply path function operands, ahead), Nat.lt_add_right 2 fewer⟩
    else .ok ⟨(named path, .next lexeme rest), Nat.lt_succ_self _⟩

def prefixed (registry : Registry) (inner : Reader) (operator : Operator) (lexeme : Lexeme)
    (ahead : Tokens) : Except ParseError (Leaving ahead.length Term) :=
  match operator with
  | .groupStart => do
    let ⟨(term, inside), fewer⟩ ← inner none ahead
    let ⟨rest, still⟩ ← expect .groupEnd inside
    return ⟨(group term, rest), Nat.lt_trans still fewer⟩
  | .vectorStart => do
    let found ← list inner .vectorEnd ahead
    return found.map vector
  | _ =>
    match operator.asPrefix? with
    | some sign => do
      let found ← inner (some sign) ahead
      let function ← bound found.val.2 (registry.lookupOperator sign 1)
      return found.map (unary sign function)
    | none => .error (unexpected .anExpression lexeme)

def operand (registry : Registry) (inner : Reader) :
    (ahead : Tokens) → Except ParseError (Leaving ahead.length Term)
  | .next lexeme rest =>
    match lexeme.token with
    | .number value => .ok ⟨(number value, rest), Nat.lt_succ_self _⟩
    | .identifier path => afterName registry inner path rest
    | .operator operator => do
      let found ← prefixed registry inner operator lexeme rest
      return found.later
  | ahead => .error (unexpectedAhead .anExpression ahead)

def infixed (registry : Registry) (inner : Reader) (operator : Operator) (lexeme : Lexeme)
    (left : Term) (ahead : Tokens) : Except ParseError (Leaving ahead.length Term) :=
  match operator with
  | .ternaryTrue => do
    let ⟨(yes, inside), fewer⟩ ← inner (some .ternaryTrue) ahead
    let ⟨rest, still⟩ ← expect .ternaryFalse inside
    let found ← inner (some .ternaryFalse) rest
    let function ← bound found.val.2 (registry.lookupOperator .ternary 3)
    return (found.widen (Nat.le_of_lt (Nat.lt_trans still fewer))).map
      (conditional function left yes)
  | .vectorStart => do
    let found ← list inner .vectorEnd ahead
    return found.map (index left)
  | _ =>
    if operator.isBinary then do
      let found ← inner (some operator) ahead
      let function ← bound found.val.2 (registry.lookupOperator operator 2)
      return found.map (binary operator function left)
    else .error (unexpected .aBinaryOperator lexeme)

def operators (registry : Registry) (inner : Reader) (holder : Option Operator) (left : Term)
    (ahead : Tokens) : Except ParseError (Leaving (ahead.length + 1) Term) :=
  match ahead with
  | .done => .ok ⟨(left, .done), Nat.lt_succ_self _⟩
  | .bad error => .error error
  | .next lexeme rest =>
    match lexeme.token with
    | .operator operator =>
      if operator.isClosing || !capturedBy holder operator then
        .ok ⟨(left, .next lexeme rest), Nat.lt_succ_self _⟩
      else do
        let ⟨(term, after), fewer⟩ ← infixed registry inner operator lexeme left rest
        let found ← operators registry inner holder term after
        return found.widen (Nat.le_trans fewer (Nat.le_add_right _ 2))
    | _ => .error (unexpected .anOperator lexeme)
termination_by ahead.length
decreasing_by exact Nat.lt_succ_of_lt fewer

def reader (registry : Registry) : Nat → Reader
  | 0, _, ahead => .error (.nestingTooDeep maxNesting ahead.remaining)
  | levels + 1, holder, ahead => do
    let ⟨(left, after), fewer⟩ ← operand registry (reader registry levels) ahead
    let found ← operators registry (reader registry levels) holder left after
    return found.widen fewer

def parse (registry : Registry) (tokens : Tokens) : Except ParseError Term := do
  let ⟨(term, after), _⟩ ← reader registry maxNesting none tokens
  match after with
  | .done => return term
  | .bad error => throw error
  | .next lexeme _ =>
    throw (.trailingTokens (String.ofList lexeme.slice) (String.ofList lexeme.start))

section

variable {registry : Registry} {inner : Reader}

theorem prefixed_sign {operator sign : Operator} (h : operator.asPrefix? = some sign)
    (lexeme : Lexeme) (ahead : Tokens) :
    prefixed registry inner operator lexeme ahead = (do
      let found ← inner (some sign) ahead
      let function ← bound found.val.2 (registry.lookupOperator sign 1)
      return found.map (unary sign function)) := by
  cases operator <;> cases h <;> rfl

theorem prefixed_other {operator : Operator} (hg : operator ≠ .groupStart)
    (hv : operator ≠ .vectorStart) (h : operator.asPrefix? = none) (lexeme : Lexeme)
    (ahead : Tokens) :
    prefixed registry inner operator lexeme ahead =
      .error (unexpected .anExpression lexeme) := by
  simp only [prefixed, h]

theorem infixed_binary {operator : Operator} (h : operator.isBinary = true) (lexeme : Lexeme)
    (left : Term) (ahead : Tokens) :
    infixed registry inner operator lexeme left ahead = (do
      let found ← inner (some operator) ahead
      let function ← bound found.val.2 (registry.lookupOperator operator 2)
      return found.map (binary operator function left)) := by
  cases operator <;> first | rfl | cases h

theorem infixed_other {operator : Operator} (ht : operator ≠ .ternaryTrue)
    (hv : operator ≠ .vectorStart) (h : operator.isBinary = false) (lexeme : Lexeme)
    (left : Term) (ahead : Tokens) :
    infixed registry inner operator lexeme left ahead =
      .error (unexpected .aBinaryOperator lexeme) := by
  simp only [infixed, h, Bool.false_eq_true, if_false]

end

end VectorFormula.Term
