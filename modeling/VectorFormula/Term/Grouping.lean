import VectorFormula.Term
import VectorFormula.Registry
import VectorFormula.Token.Stream
/-!
How terms group under the priority table. The left edge of a term is what the operator before it
has to capture, and the right edge is what must not capture the operator after it.
-/
namespace VectorFormula

namespace Term

/-- The operators met from the left end of a term up, those of indexing and choice included. -/
def leftEdge : Term → List Operator
  | binary operator _ left _ => operator :: left.leftEdge
  | conditional _ condition _ _ => .ternaryTrue :: condition.leftEdge
  | index target _ => .vectorStart :: target.leftEdge
  | _ => []

/-- The operators met from the right end of a term up. -/
def rightEdge : Term → List Operator
  | unary operator _ operand => operator :: operand.rightEdge
  | binary operator _ _ right => operator :: right.rightEdge
  | conditional _ _ _ no => .ternaryTrue :: no.rightEdge
  | _ => []

/-- Whether a term groups as the priority table says: an operator captures the left edge of what
follows it, and nothing on the right edge of what precedes it captures it. -/
inductive WellGrouped : Term → Prop
  | number (value : Float) : WellGrouped (number value)
  | named (path : Path) : WellGrouped (named path)
  | group {inner : Term} : WellGrouped inner → WellGrouped (group inner)
  | apply {path : Path} {function : Function} {operands : List Term} :
    (∀ operand ∈ operands, WellGrouped operand) → WellGrouped (apply path function operands)
  | vector {items : List Term} : (∀ item ∈ items, WellGrouped item) → WellGrouped (vector items)
  | unary {operator : Operator} {function : Function} {operand : Term} : WellGrouped operand →
    (∀ met ∈ operand.leftEdge, operator.captures met = true) →
    WellGrouped (unary operator function operand)
  | binary {operator : Operator} {function : Function} {left right : Term} :
    WellGrouped left → WellGrouped right →
    (∀ holder ∈ left.rightEdge, holder.captures operator = false) →
    (∀ met ∈ right.leftEdge, operator.captures met = true) →
    WellGrouped (binary operator function left right)
  | conditional {function : Function} {condition yes no : Term} :
    WellGrouped condition → WellGrouped yes → WellGrouped no →
    (∀ holder ∈ condition.rightEdge, holder.captures .ternaryTrue = false) →
    WellGrouped (conditional function condition yes no)
  | index {target : Term} {items : List Term} :
    WellGrouped target → (∀ item ∈ items, WellGrouped item) →
    (∀ holder ∈ target.rightEdge, holder.captures .vectorStart = false) →
    WellGrouped (index target items)

/-- Whether a term is one over a registry: signs stand in front and binary operators between their
operands, and all functions are those that the registry has for them. -/
inductive Over (registry : Registry) : Term → Prop
  | number (value : Float) : Over registry (number value)
  | named (path : Path) : Over registry (named path)
  | group {inner : Term} : Over registry inner → Over registry (group inner)
  | apply {path : Path} {function : Function} {operands : List Term} :
    registry.lookup path.text operands.length = .ok function →
    (∀ operand ∈ operands, Over registry operand) →
    Over registry (apply path function operands)
  | vector {items : List Term} : (∀ item ∈ items, Over registry item) →
    Over registry (vector items)
  | unary {operator : Operator} {function : Function} {operand : Term} :
    operator.isSign = true → registry.lookupOperator operator 1 = .ok function →
    Over registry operand → Over registry (unary operator function operand)
  | binary {operator : Operator} {function : Function} {left right : Term} :
    operator.isBinary = true → registry.lookupOperator operator 2 = .ok function →
    Over registry left → Over registry right →
    Over registry (binary operator function left right)
  | conditional {function : Function} {condition yes no : Term} :
    registry.lookupOperator .ternary 3 = .ok function → Over registry condition →
    Over registry yes → Over registry no → Over registry (conditional function condition yes no)
  | index {target : Term} {items : List Term} : Over registry target →
    (∀ item ∈ items, Over registry item) → Over registry (index target items)

mutual

/-- How deeply a term nests. What stands in delimiters or to the right of an operator is one level
further in; what stands to the left of an operator is on the same level. -/
def depth : Term → Nat
  | number _ | named _ => 0
  | group inner => inner.depth + 1
  | apply _ _ operands => listDepth operands
  | vector items => listDepth items
  | unary _ _ operand => operand.depth + 1
  | binary _ _ left right => max left.depth (right.depth + 1)
  | conditional _ condition yes no => max condition.depth (max (yes.depth + 1) (no.depth + 1))
  | index target items => max target.depth (listDepth items)

def listDepth : List Term → Nat
  | [] => 0
  | term :: rest => max (term.depth + 1) (listDepth rest)

end

theorem listDepth_le {terms : List Term} {levels : Nat} :
    listDepth terms ≤ levels ↔ ∀ term ∈ terms, term.depth < levels := by
  induction terms with
  | nil => simp [listDepth]
  | cons term rest ih => rw [listDepth, Nat.max_le, Nat.succ_le_iff, ih, List.forall_mem_cons]

end Term

namespace Tokens

/-- Whether the tokens ahead do not go on with an operator that belongs to what one of `edge`
holds. -/
def Free (edge : List Operator) (ahead : Tokens) : Prop :=
  ∀ lexeme rest met, ahead = .next lexeme rest → lexeme.token = .operator met →
    met.isClosing = true ∨ ∀ holder ∈ edge, holder.captures met = false

end Tokens

end VectorFormula
