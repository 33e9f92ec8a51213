import VectorFormula.Instruction
import VectorFormula.Token
/-!
Terms: formulas as trees, with the functions that their operators and names stand for. A term has
tokens that spell it, and a program, which is its postorder: operands first, from left to right.
-/
namespace VectorFormula

/-- A formula as a tree. Parentheses are kept, so that a tree spells its formula. -/
inductive Term where
  | number (value : Float)
  | named (path : Path)
  | group (inner : Term)
  | apply (path : Path) (function : Function) (operands : List Term)
  | vector (items : List Term)
  | unary (operator : Operator) (function : Function) (operand : Term)
  | binary (operator : Operator) (function : Function) (left right : Term)
  | conditional (function : Function) (condition yes no : Term)
  | index (target : Term) (items : List Term)

namespace Term

/-- Induction on terms, with the hypothesis for every operand of a call and every item of a list. -/
@[induction_eliminator]
theorem induction {motive : Term → Prop} (number : ∀ value, motive (number value))
    (named : ∀ path, motive (named path))
    (group : ∀ inner, motive inner → motive (group inner))
    (apply : ∀ path function operands, (∀ operand ∈ operands, motive operand) →
      motive (apply path function operands))
    (vector : ∀ items, (∀ item ∈ items, motive item) → motive (vector items))
    (unary : ∀ operator function operand, motive operand →
      motive (unary operator function operand))
    (binary : ∀ operator function left right, motive left → motive right →
      motive (binary operator function left right))
    (conditional : ∀ function condition yes no, motive condition → motive yes → motive no →
      motive (conditional function condition yes no))
    (index : ∀ target items, motive target → (∀ item ∈ items, motive item) →
      motive (index target items)) (term : Term) : motive term :=
  Term.rec (motive_2 := fun terms => ∀ term ∈ terms, motive term)
    number named group apply vector unary binary conditional index
    (fun _ h => nomatch h) (fun _ _ head tail => List.forall_mem_cons.mpr ⟨head, tail⟩) term

mutual

def tokens : Term → List Token
  | number value => [.number value]
  | named path => [.identifier path]
  | group inner => .operator .groupStart :: (inner.tokens ++ [.operator .groupEnd])
  | apply path _ operands =>
    .identifier path :: .operator .groupStart :: (listTokens operands ++ [.operator .groupEnd])
  | vector items => .operator .vectorStart :: (listTokens items ++ [.operator .vectorEnd])
  | unary operator _ operand => .operator operator.written :: operand.tokens
  | binary operator _ left right => left.tokens ++ .operator operator :: right.tokens
  | conditional _ condition yes no =>
    condition.tokens ++ .operator .ternaryTrue ::
      (yes.tokens ++ .operator .ternaryFalse :: no.tokens)
  | index target items =>
    target.tokens ++ .operator .vectorStart :: (listTokens items ++ [.operator .vectorEnd])

def listTokens : List Term → List Token
  | [] => []
  | term :: rest => term.tokens ++ moreTokens rest

def moreTokens : List Term → List Token
  | [] => []
  | term :: rest => .operator .comma :: (term.tokens ++ moreTokens rest)

end

theorem moreTokens_eq {terms : List Term} (h : terms ≠ []) :
    moreTokens terms = .operator .comma :: listTokens terms := by
  cases terms with
  | nil => exact absurd rfl h
  | cons term rest => rfl

theorem listTokens_eq (terms : List Term) :
    listTokens terms = [.operator .comma].intercalate (terms.map tokens) := by
  induction terms with
  | nil => rfl
  | cons term rest ih =>
    cases rest with
    | nil => simp [listTokens, moreTokens, List.intercalate]
    | cons next rest =>
      rw [listTokens, moreTokens_eq (List.cons_ne_nil _ _), ih]
      simp [List.intercalate]

mutual

/-- The program of a term. Indexing with a single item that makes a sequence of two bounds takes the
bounds to a slice instead. -/
def program : Term → Program
  | number value => [.push (.scalar value)]
  | named path => [.load path]
  | group inner => inner.program
  | apply path function operands =>
    programs operands ++ [.call path.text function operands.length]
  | vector items => programs items ++ [.vector items.length]
  | unary operator function operand => operand.program ++ [.call operator.symbol function 1]
  | binary operator function left right =>
    left.program ++ right.program ++ [.call operator.symbol function 2]
  | conditional function condition yes no =>
    condition.program ++ yes.program ++ no.program ++ [.call Operator.ternary.symbol function 3]
  | index target items =>
    match listBounds? items with
    | some bounds => target.program ++ bounds ++ [.indexRange]
    | none => target.program ++ programs items ++ [.index items.length]

def programs : List Term → Program
  | [] => []
  | term :: rest => term.program ++ programs rest

/-- The program of the bounds, where a list is a single item that makes a sequence. -/
def listBounds? : List Term → Option Program
  | [item] => item.bounds?
  | _ => none

/-- The program of the bounds, where a term makes a sequence: by the operator, or by a function of
the same name. -/
def bounds? : Term → Option Program
  | group inner => inner.bounds?
  | binary .range _ start stop => some (start.program ++ stop.program)
  | apply path _ [start, stop] =>
    if path.text = Operator.range.symbol then some (start.program ++ stop.program) else none
  | _ => none

end

theorem listBounds?_eq_some {items : List Term} {bounds : Program}
    (h : listBounds? items = some bounds) :
    ∃ item, items = [item] ∧ item.bounds? = some bounds := by
  match items, h with
  | [item], h => exact ⟨item, rfl, h⟩

end Term

end VectorFormula
