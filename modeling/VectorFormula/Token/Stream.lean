import VectorFormula.Token.Scan
/-!
The tokens of a text, as a parser meets them: lexemes one after another, until nothing is left or a
piece is no token.
-/
namespace VectorFormula

inductive Tokens where
  | done
  | bad (error : ParseError)
  | next (lexeme : Lexeme) (rest : Tokens)

namespace Tokens

def length : Tokens → Nat
  | done | bad _ => 0
  | next _ rest => rest.length + 1

def remaining : Tokens → String
  | done => ""
  | bad error => error.remaining
  | next lexeme _ => String.ofList lexeme.start

def ofText (text : List Char) : Tokens :=
  match _ : Token.piece? text with
  | none => done
  | some piece =>
    match piece.reading with
    | .error fault => bad (piece.error fault)
    | .ok token => next ⟨token, piece.slice, piece.start⟩ (ofText piece.rest)
termination_by text.length
decreasing_by exact Token.piece?_rest_lt ‹_›

section

variable {text : List Char} {piece : Token.Piece}

theorem ofText_none (h : Token.piece? text = none) : ofText text = done := by
  rw [ofText.eq_def]
  split <;> simp_all

theorem ofText_error {fault : Token.Fault} (h : Token.piece? text = some piece)
    (hr : piece.reading = .error fault) : ofText text = bad (piece.error fault) := by
  rw [ofText.eq_def]
  split <;> simp_all

theorem ofText_ok {token : Token} (h : Token.piece? text = some piece)
    (hr : piece.reading = .ok token) :
    ofText text = next ⟨token, piece.slice, piece.start⟩ (ofText piece.rest) := by
  rw [ofText.eq_def]
  split <;> simp_all

theorem ofText_congr {other : List Char} (h : Token.piece? other = Token.piece? text) :
    ofText other = ofText text := by
  cases hp : Token.piece? text with
  | none => rw [ofText_none hp, ofText_none (h.trans hp)]
  | some piece =>
    cases hr : piece.reading with
    | error fault => rw [ofText_error hp hr, ofText_error (h.trans hp) hr]
    | ok token => rw [ofText_ok hp hr, ofText_ok (h.trans hp) hr]

end

/-- Something read from tokens, together with the tokens after it, of which there are fewer than
`bound`. -/
abbrev Leaving (bound : Nat) (α : Type) := {found : α × Tokens // found.2.length < bound}

namespace Leaving

variable {α β : Type} {bound larger : Nat}

def map (f : α → β) (found : Leaving bound α) : Leaving bound β :=
  ⟨(f found.val.1, found.val.2), found.property⟩

def widen (found : Leaving bound α) (h : bound ≤ larger) : Leaving larger α :=
  ⟨found.val, Nat.lt_of_lt_of_le found.property h⟩

def later (found : Leaving bound α) : Leaving (bound + 1) α :=
  found.widen (Nat.le_succ bound)

end Leaving

/-- Whether the tokens ahead start with the given ones and go on with `rest`. -/
def Spells : List Token → Tokens → Tokens → Prop
  | [], ahead, rest => ahead = rest
  | token :: tokens, .next lexeme ahead, rest => lexeme.token = token ∧ Spells tokens ahead rest
  | _ :: _, _, _ => False

theorem spells_append {xs ys : List Token} {ahead rest : Tokens} :
    Spells (xs ++ ys) ahead rest ↔ ∃ middle, Spells xs ahead middle ∧ Spells ys middle rest := by
  induction xs generalizing ahead with
  | nil => simp [Spells]
  | cons token tokens ih =>
    cases ahead with
    | next lexeme ahead => simp [Spells, ih, and_assoc]
    | _ => simp [Spells]

theorem spells_cons {token : Token} {tokens : List Token} {ahead rest : Tokens} :
    Spells (token :: tokens) ahead rest ↔
      ∃ lexeme middle, ahead = .next lexeme middle ∧ lexeme.token = token ∧
        Spells tokens middle rest := by
  cases ahead with
  | next lexeme ahead =>
    simp only [Spells, next.injEq]
    exact ⟨fun h => ⟨lexeme, ahead, ⟨rfl, rfl⟩, h⟩, by rintro ⟨_, _, ⟨rfl, rfl⟩, h⟩; exact h⟩
  | _ => simp [Spells]

/-- Whether nothing is ahead, or an operator of a kind. -/
def Yields (fits : Operator → Prop) : Tokens → Prop
  | .done => True
  | .bad _ => False
  | .next lexeme _ => ∃ met, lexeme.token = .operator met ∧ fits met

end Tokens

end VectorFormula
