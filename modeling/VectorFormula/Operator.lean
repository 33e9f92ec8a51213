/-!
The operators and delimiters of formulas, with the priority table that decides how formulas group.
-/
namespace VectorFormula

/-- Operators and delimiters. The two signs in front of an operand and the whole conditional have
members of their own, which no token spells. -/
inductive Operator where
  | multiply | divide | modulo | plus | minus | power | range
  | negate | greater | less | greaterOrEqual | lessOrEqual | equal | or | and | complement
  | ternaryTrue | ternaryFalse | groupStart | groupEnd | vectorStart | vectorEnd | comma
  | unaryPlus | unaryMinus | ternary
  deriving DecidableEq, Repr

namespace Operator

def priority : Operator → Nat
  | ternaryTrue | ternaryFalse | ternary => 1
  | or => 2
  | and => 3
  | equal => 4
  | greater | less | greaterOrEqual | lessOrEqual => 5
  | plus | minus => 6
  | multiply | divide | modulo => 7
  | negate | complement => 8
  | vectorStart | vectorEnd => 9
  | unaryPlus | unaryMinus => 10
  | power | range | groupStart | groupEnd | comma => 11

def groupsLeft : Operator → Bool
  | power | range | negate | complement | unaryPlus | unaryMinus
  | ternaryTrue | ternaryFalse | ternary => false
  | _ => true

/-- Whether an operator met after an operand of `holder` belongs to that operand. -/
def captures (holder met : Operator) : Bool :=
  holder.priority < met.priority || (met.priority == holder.priority && !holder.groupsLeft)

/-- The delimiters that end a term without belonging to it. -/
def isClosing : Operator → Bool
  | groupEnd | vectorEnd | comma | ternaryFalse => true
  | _ => false

def isBinary : Operator → Bool
  | multiply | divide | modulo | plus | minus | power | range
  | greater | less | greaterOrEqual | lessOrEqual | equal | or | and => true
  | _ => false

/-- The operator that a token stands for in front of an operand. -/
def asPrefix? : Operator → Option Operator
  | minus => some unaryMinus
  | plus => some unaryPlus
  | negate => some negate
  | complement => some complement
  | _ => none

def isSign : Operator → Bool
  | negate | complement | unaryPlus | unaryMinus => true
  | _ => false

/-- The operator that a token spells where this one is meant. -/
def written : Operator → Operator
  | unaryPlus => plus
  | unaryMinus => minus
  | operator => operator

theorem asPrefix?_written {sign : Operator} (h : sign.isSign = true) :
    sign.written.asPrefix? = some sign := by
  cases sign <;> first | rfl | cases h

/-- The name of the function behind an operator; delimiters have none. -/
def functionName? : Operator → Option String
  | plus => some "plus"
  | minus => some "minus"
  | multiply => some "multiply"
  | divide => some "divide"
  | modulo => some "modulo"
  | less => some "less"
  | greater => some "greater"
  | lessOrEqual => some "lessorequal"
  | greaterOrEqual => some "greaterorequal"
  | equal => some "equal"
  | negate => some "negate"
  | and => some "and"
  | or => some "or"
  | power => some "pow"
  | range => some "range"
  | unaryPlus => some "unaryplus"
  | unaryMinus => some "unaryminus"
  | ternary => some "ternary"
  | complement => some "complement"
  | ternaryTrue | ternaryFalse | groupStart | groupEnd | vectorStart | vectorEnd | comma => none

def symbol : Operator → String
  | multiply => "*"
  | divide => "/"
  | modulo => "%"
  | plus | unaryPlus => "+"
  | minus | unaryMinus => "-"
  | power => "**"
  | range => ".."
  | negate => "!"
  | greater => ">"
  | less => "<"
  | greaterOrEqual => ">="
  | lessOrEqual => "<="
  | equal => "=="
  | or => "||"
  | and => "&&"
  | complement => "~"
  | ternaryTrue => "?"
  | ternaryFalse => ":"
  | ternary => "?:"
  | groupStart => "("
  | groupEnd => ")"
  | vectorStart => "["
  | vectorEnd => "]"
  | comma => ","

end Operator

end VectorFormula
