import VectorFormula.Operator
import VectorFormula.Decimal.Numeral
/-!
What can go wrong, as causes, and the words for it. A fault in a source text carries the text that
was not yet read.
-/
namespace VectorFormula

inductive LookupError where
  | unknownFunction (name : String) (arity : Nat)
  | arityMismatch (name : String) (arity : Nat) (accepted : List Nat)
  deriving DecidableEq, Repr

inductive Expectation where
  | anExpression
  | anOperator
  | aBinaryOperator
  | the (operator : Operator)
  | commaOr (closing : Operator)
  deriving DecidableEq, Repr

inductive ParseError where
  | unexpectedToken (expected : Expectation) (found remaining : String)
  | unexpectedEnd (expected : Expectation)
  | unexpectedCharacter (character : Char) (remaining : String)
  | malformedNumber (literal remaining : String)
  | trailingTokens (token remaining : String)
  | nestingTooDeep (limit : Nat) (remaining : String)
  | lookup (error : LookupError) (remaining : String)
  deriving DecidableEq, Repr

inductive RuntimeError where
  | typeConversion (name value : String)
  | unresolvedIdentifiers (names : List String)
  | cyclicReference (name : String)
  | recursionLimit (limit : Nat)
  | indexOutOfBounds (index : Int) (size : Nat)
  | invalidIndex (value : Float)
  | argumentCountMismatch (expected found : Nat)
  | stackUnderflow (instruction : String)
  | invalidStackSize (size : Nat)
  deriving Repr

def LookupError.message : LookupError → String
  | unknownFunction name arity => s!"Unknown function `{name}' for {arity} argument(s)"
  | arityMismatch name arity accepted =>
    let counts := " or ".intercalate (accepted.map toString)
    s!"Function `{name}' takes {counts} argument(s), but {arity} were supplied"

def Expectation.text : Expectation → String
  | anExpression => "an expression"
  | anOperator => "an operator"
  | aBinaryOperator => "a binary operator"
  | the operator => s!"`{operator.symbol}'"
  | commaOr closing => s!"`,' or `{closing.symbol}'"

namespace ParseError

def remaining : ParseError → String
  | unexpectedEnd _ => ""
  | unexpectedToken _ _ rest | unexpectedCharacter _ rest | malformedNumber _ rest
  | trailingTokens _ rest | nestingTooDeep _ rest | lookup _ rest => rest

def message : ParseError → String
  | unexpectedToken expected found rest =>
    s!"Expected {expected.text} but got `{found}' [{rest}]"
  | unexpectedEnd expected => s!"Expected {expected.text} but got (nothing)"
  | unexpectedCharacter character rest => s!"Unexpected character `{character}' [{rest}]"
  | malformedNumber literal rest => s!"Malformed number `{literal}' [{rest}]"
  | trailingTokens token rest => s!"Unexpected `{token}' after expression [{rest}]"
  | nestingTooDeep limit rest => s!"Expression nested deeper than {limit} levels [{rest}]"
  | lookup error rest => s!"{error.message} [{rest}]"

end ParseError

def RuntimeError.message : RuntimeError → String
  | typeConversion name value => s!"Failed to convert `{value}' (bound to `{name}') to a number"
  | unresolvedIdentifiers names =>
    let list := ", ".intercalate names
    s!"The variables `{list}' are unknown"
  | cyclicReference name => s!"Expression bound to `{name}' refers to itself"
  | recursionLimit limit => s!"Expressions are nested deeper than the limit of {limit}"
  | indexOutOfBounds index size => s!"Index {index} is out of bounds for a value of size {size}"
  | invalidIndex value =>
    let text := Decimal.numeral value
    s!"Index `{text}' is not a finite number"
  | argumentCountMismatch expected found =>
    s!"Number of arguments does not match (got {found}, expected {expected})"
  | stackUnderflow instruction => s!"Not enough operands on the stack for `{instruction}'"
  | invalidStackSize size => s!"Invalid stack size: {size}"

section

variable {ε α β : Type} {first : Except ε α} {next : α → Except ε β}

theorem bind_eq_ok {result : β} :
    first >>= next = .ok result ↔ ∃ value, first = .ok value ∧ next value = .ok result := by
  cases first <;> simp [bind, Except.bind]

theorem bind_eq_error {error : ε} :
    first >>= next = .error error ↔
      first = .error error ∨ ∃ value, first = .ok value ∧ next value = .error error := by
  cases first <;> simp [bind, Except.bind]

end

end VectorFormula
