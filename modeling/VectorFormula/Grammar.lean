import VectorFormula.Instruction
import VectorFormula.Token
/-!
The grammar of formulas, without priorities: any two formulas may stand beside an operator, however
they group. A derivation has the calls of its formula.
-/
namespace VectorFormula.Grammar

abbrev Call := Path × Nat

def separated (parts : List (List Token)) : List Token :=
  [.operator .comma].intercalate parts

@[simp] theorem separated_nil : separated [] = [] := rfl

@[simp] theorem separated_singleton (part : List Token) : separated [part] = part := by
  simp [separated, List.intercalate]

@[simp] theorem separated_cons_cons (part next : List Token) (rest : List (List Token)) :
    separated (part :: next :: rest) = part ++ .operator .comma :: separated (next :: rest) := by
  simp [separated, List.intercalate]

/-- Whether tokens are a formula that has given calls, in the order in which the calls end. -/
inductive Sentence : List Token → List Call → Prop
  | number (value : Float) : Sentence [.number value] []
  | named (path : Path) : Sentence [.identifier path] []
  | apply {path : Path} {parts : List (List Token × List Call)} :
    (∀ part ∈ parts, Sentence part.1 part.2) →
    Sentence (.identifier path :: .operator .groupStart ::
        (separated (parts.map (·.1)) ++ [.operator .groupEnd]))
      (parts.flatMap (·.2) ++ [(path, parts.length)])
  | group {inner : List Token} {calls : List Call} : Sentence inner calls →
    Sentence (.operator .groupStart :: (inner ++ [.operator .groupEnd])) calls
  | vector {parts : List (List Token × List Call)} :
    (∀ part ∈ parts, Sentence part.1 part.2) →
    Sentence (.operator .vectorStart ::
        (separated (parts.map (·.1)) ++ [.operator .vectorEnd])) (parts.flatMap (·.2))
  | signed {sign : Operator} {operand : List Token} {calls : List Call} :
    sign ∈ [.plus, .minus, .negate, .complement] → Sentence operand calls →
    Sentence (.operator sign :: operand) calls
  | binary {operator : Operator} {left right : List Token} {first second : List Call} :
    operator.isBinary = true → Sentence left first → Sentence right second →
    Sentence (left ++ .operator operator :: right) (first ++ second)
  | conditional {condition yes no : List Token} {first second third : List Call} :
    Sentence condition first → Sentence yes second → Sentence no third →
    Sentence (condition ++ .operator .ternaryTrue :: (yes ++ .operator .ternaryFalse :: no))
      (first ++ (second ++ third))
  | index {target : List Token} {calls : List Call} {parts : List (List Token × List Call)} :
    Sentence target calls → (∀ part ∈ parts, Sentence part.1 part.2) →
    Sentence (target ++ .operator .vectorStart ::
        (separated (parts.map (·.1)) ++ [.operator .vectorEnd])) (calls ++ parts.flatMap (·.2))

end VectorFormula.Grammar
