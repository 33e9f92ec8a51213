import VectorFormula.Operator
/-!
Tokens, and lexemes: tokens together with where they stand in a source text.
-/
namespace VectorFormula

inductive Token where
  | number (value : Float)
  | identifier (path : List String)
  | operator (operator : Operator)

/-- A token read from a text: the piece it was read from, and the text from that piece on. -/
structure Lexeme where
  token : Token
  slice : List Char
  start : List Char

namespace Lexeme

def isOperator (lexeme : Lexeme) (operator : Operator) : Bool :=
  match lexeme.token with
  | .operator found => found = operator
  | _ => false

theorem isOperator_iff {lexeme : Lexeme} {operator : Operator} :
    lexeme.isOperator operator = true ↔ lexeme.token = .operator operator := by
  unfold isOperator
  split
  · simp_all
  · rename_i h
    simp only [Bool.false_eq_true, false_iff]
    exact h operator

def byteLength : List Char → Nat
  | [] => 0
  | c :: rest => c.utf8Size + byteLength rest

theorem byteLength_append (text rest : List Char) :
    byteLength (text ++ rest) = byteLength text + byteLength rest := by
  induction text with
  | nil => exact (Nat.zero_add _).symm
  | cons c others ih => rw [List.cons_append, byteLength, byteLength, ih, Nat.add_assoc]

theorem byteLength_pos {text : List Char} (h : text ≠ []) : 0 < byteLength text := by
  cases text with
  | nil => exact absurd rfl h
  | cons c others => exact Nat.add_pos_left c.utf8Size_pos _

/-- The first byte of a lexeme in its source, and the byte after its last. -/
def span (source : List Char) (lexeme : Lexeme) : Nat × Nat :=
  let first := byteLength source - byteLength lexeme.start
  (first, first + byteLength lexeme.slice)

end Lexeme

end VectorFormula
