import VectorFormula.Instruction
import VectorFormula.Registry
import VectorFormula.Token.Stream
/-!
Emitting programs from tokens by priorities. Operands are emitted as they are read, and an
operator after its operands. Expressions inside expressions are read by a reader of the next
level, and there are `maxNesting` levels.
-/
namespace VectorFormula.Emission

open Tokens (Leaving)

def maxNesting : Nat := 128

/-- A way to read one expression, as the operand of an operator if one is given: the program so far
with that of the expression behind it, and the tokens after the expression. -/
abbrev Reader :=
  Option Operator → Program → (ahead : Tokens) → Except ParseError (Leaving ahead.length Program)

def unexpected (expected : Expectation) (lexeme : Lexeme) : ParseError :=
  .unexpectedToken expected (String.ofList lexeme.slice) (String.ofList lexeme.start)

def unexpectedAhead (expected : Expectation) : Tokens → ParseError
  | .done => .unexpectedEnd expected
  | .bad error => error
  | .next lexeme _ => unexpected expected lexeme

/-- The function that a look-up gave; a failure is placed at the tokens ahead. -/
def bound (ahead : Tokens) : Except LookupError Function → Except ParseError Function
  | .ok function => .ok function
  | .error error => .error (.lookup error ahead.remaining)

def expect (operator : Operator) :
    (ahead : Tokens) → Except ParseError {rest : Tokens // rest.length < ahead.length}
  | .next lexeme rest =>
    if lexeme.isOperator operator then .ok ⟨rest, Nat.lt_succ_self _⟩
    else .error (unexpected (.the operator) lexeme)
  | ahead => .error (unexpectedAhead (.the operator) ahead)

/-- Whether a program ends by making a sequence of two bounds. -/
def endsInRange (program : Program) : Bool :=
  match program.getLast? with
  | some (.call name _ 2) => name == Operator.range.symbol
  | _ => false

/-- Reads the items of a list up to its closing delimiter, at least one, and counts them on from
`count`. -/
def items (inner : Reader) (closing : Operator) (count : Nat) (program : Program)
    (ahead : Tokens) : Except ParseError (Leaving ahead.length (Nat × Program)) :=
  match inner none program ahead with
  | .error error => .error error
  | .ok ⟨(program, .next lexeme rest), fewer⟩ =>
    if lexeme.isOperator closing then
      .ok ⟨((count + 1, program), rest), Nat.lt_of_succ_lt fewer⟩
    else if lexeme.isOperator .comma then do
      let found ← items inner closing (count + 1) program rest
      return found.widen (Nat.le_of_lt (Nat.lt_of_succ_lt fewer))
    else .error (unexpected (.commaOr closing) lexeme)
  | .ok ⟨(_, .done), _⟩ => .error (.unexpectedEnd (.commaOr closing))
  | .ok ⟨(_, .bad error), _⟩ => .error error
termination_by ahead.length
decreasing_by exact Nat.lt_of_succ_lt fewer

def list (inner : Reader) (closing : Operator) (program : Program) :
    (ahead : Tokens) → Except ParseError (Leaving ahead.length (Nat × Program))
  | .bad error => .error error
  | .done => items inner closing 0 program .done
  | .next lexeme rest =>
    if lexeme.isOperator closing then .ok ⟨((0, program), rest), Nat.lt_succ_self _⟩
    else items inner closing 0 program (.next lexeme rest)

def afterName (registry : Registry) (inner : Reader) (path : Path) (program : Program) :
    (ahead : Tokens) → Except ParseError (Leaving (ahead.length + 1) Program)
  | .bad error => .error error
  | .done => .ok ⟨(program ++ [.load path], .done), Nat.lt_succ_self _⟩
  | .next lexeme rest =>
    if lexeme.isOperator .groupStart then do
      let ⟨((arity, program), ahead), fewer⟩ ← list inner .groupEnd program rest
      let function ← bound ahead (registry.lookup path.text arity)
      return ⟨(program ++ [.call path.text function arity], ahead),
        Nat.lt_add_right 2 fewer⟩
    else .ok ⟨(program ++ [.load path], .next lexeme rest), Nat.lt_succ_self _⟩

def prefixed (registry : Registry) (inner : Reader) (operator : Operator) (lexeme : Lexeme)
    (program : Program) (ahead : Tokens) : Except ParseError (Leaving ahead.length Program) :=
  match operator with
  | .groupStart => do
    let ⟨(program, inside), fewer⟩ ← inner none program ahead
    let ⟨rest, still⟩ ← expect .groupEnd inside
    return ⟨(program, rest), Nat.lt_trans still fewer⟩
  | .vectorStart => do
    let found ← list inner .vectorEnd program ahead
    return found.map fun (count, program) => program ++ [.vector count]
  | _ =>
    match operator.asPrefix? with
    | some sign => do
      let found ← inner (some sign) program ahead
      let function ← bound found.val.2 (registry.lookupOperator sign 1)
      return found.map (· ++ [.call sign.symbol function 1])
    | none => .error (unexpected .anExpression lexeme)

def operand (registry : Registry) (inner : Reader) (program : Program) :
    (ahead : Tokens) → Except ParseError (Leaving ahead.length Program)
  | .next lexeme rest =>
    match lexeme.token with
    | .number value => .ok ⟨(program ++ [.push (.scalar value)], rest), Nat.lt_succ_self _⟩
    | .identifier path => afterName registry inner path program rest
    | .operator operator => do
      let found ← prefixed registry inner operator lexeme program rest
      return found.later
  | ahead => .error (unexpectedAhead .anExpression ahead)

/-- Reads what an operator makes of the operand before it. A single item that ends by making a
sequence is not made: its bounds go to a slice. -/
def infixed (registry : Registry) (inner : Reader) (operator : Operator) (lexeme : Lexeme)
    (program : Program) (ahead : Tokens) : Except ParseError (Leaving ahead.length Program) :=
  match operator with
  | .ternaryTrue => do
    let ⟨(program, inside), fewer⟩ ← inner (some .ternaryTrue) program ahead
    let ⟨rest, still⟩ ← expect .ternaryFalse inside
    let found ← inner (some .ternaryFalse) program rest
    let function ← bound found.val.2 (registry.lookupOperator .ternary 3)
    return (found.widen (Nat.le_of_lt (Nat.lt_trans still fewer))).map
      (· ++ [.call Operator.ternary.symbol function 3])
  | .vectorStart => do
    let found ← list inner .vectorEnd program ahead
    return found.map fun (count, program) =>
      if count == 1 && endsInRange program then program.dropLast ++ [.indexRange]
      else program ++ [.index count]
  | _ =>
    if operator.isBinary then do
      let found ← inner (some operator) program ahead
      let function ← bound found.val.2 (registry.lookupOperator operator 2)
      return found.map (· ++ [.call operator.symbol function 2])
    else .error (unexpected .aBinaryOperator lexeme)

/-- Whether the operator that an expression is an operand of, if any, captures the one met after
it. -/
def capturedBy (holder : Option Operator) (met : Operator) : Bool :=
  holder.all (·.captures met)

def operators (registry : Registry) (inner : Reader) (holder : Option Operator)
    (program : Program) (ahead : Tokens) :
    Except ParseError (Leaving (ahead.length + 1) Program) :=
  match ahead with
  | .done => .ok ⟨(program, .done), Nat.lt_succ_self _⟩
  | .bad error => .error error
  | .next lexeme rest =>
    match lexeme.token with
    | .operator operator =>
      if operator.isClosing || !capturedBy holder operator then
        .ok ⟨(program, .next lexeme rest), Nat.lt_succ_self _⟩
      else do
        let ⟨(program, after), fewer⟩ ← infixed registry inner operator lexeme program rest
        let found ← operators registry inner holder program after
        return found.widen (Nat.le_trans fewer (Nat.le_add_right _ 2))
    | _ => .error (unexpected .anOperator lexeme)
termination_by ahead.length
decreasing_by exact Nat.lt_succ_of_lt fewer

def reader (registry : Registry) : Nat → Reader
  | 0, _, _, ahead => .error (.nestingTooDeep maxNesting ahead.remaining)
  | levels + 1, holder, program, ahead => do
    let ⟨(program, after), fewer⟩ ← operand registry (reader registry levels) program ahead
    let found ← operators registry (reader registry levels) holder program after
    return found.widen fewer

def program (registry : Registry) (tokens : Tokens) : Except ParseError Program := do
  let ⟨(program, after), _⟩ ← reader registry maxNesting none [] tokens
  match after with
  | .done => return program
  | .bad error => throw error
  | .next lexeme _ =>
    throw (.trailingTokens (String.ofList lexeme.slice) (String.ofList lexeme.start))

end VectorFormula.Emission
