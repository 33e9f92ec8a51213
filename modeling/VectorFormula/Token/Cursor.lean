import VectorFormula.Token.Scan
/-!
A cursor over the tokens of a text, with a look at the next one. It keeps a lexeme that was looked
at, but nothing of a piece that is no token.
-/
namespace VectorFormula.Token

/-- A place in a text, the lexeme that was looked at but not taken, and how the cursor goes on where no
token starts. -/
structure Cursor where
  source : List Char
  ahead : List Char
  peeked : Option Lexeme
  recovery : Recovery

namespace Cursor

def start (recovery : Recovery) (text : List Char) : Cursor :=
  ⟨text, text, none, recovery⟩

def ofText : List Char → Cursor :=
  start .standard

def read (cursor : Cursor) : Except ParseError (Option Lexeme) × Cursor :=
  match piece? cursor.ahead with
  | none => (.ok none, cursor)
  | some piece =>
    let passed := { cursor with ahead := piece.behind cursor.recovery }
    match piece.reading with
    | .error fault => (.error (piece.error fault), passed)
    | .ok token => (.ok (some ⟨token, piece.slice, piece.start⟩), passed)

def peek (cursor : Cursor) : Except ParseError (Option Lexeme) × Cursor :=
  match cursor.peeked with
  | some lexeme => (.ok (some lexeme), cursor)
  | none =>
    match cursor.read with
    | (.ok seen, passed) => (.ok seen, { passed with peeked := seen })
    | (.error error, passed) => (.error error, passed)

def next (cursor : Cursor) : Except ParseError (Option Lexeme) × Cursor :=
  match cursor.peeked with
  | some lexeme => (.ok (some lexeme), { cursor with peeked := none })
  | none => cursor.read

def reset (cursor : Cursor) : Cursor :=
  start cursor.recovery cursor.source

def atEnd (cursor : Cursor) : Bool :=
  cursor.peeked.isNone && cursor.ahead.all isSkipped

/-- The text that is not taken yet, without skipped characters in front. -/
def remaining (cursor : Cursor) : List Char :=
  match cursor.peeked with
  | some lexeme => lexeme.start
  | none => cursor.ahead.dropWhile isSkipped

def takeAll (cursor : Cursor) : List Lexeme × Option ParseError × Cursor :=
  match cursor.peeked with
  | some lexeme =>
    let (lexemes, error, last) := scan cursor.recovery cursor.source cursor.ahead
    (lexeme :: lexemes, error, last)
  | none => scan cursor.recovery cursor.source cursor.ahead
where
  scan (recovery : Recovery) (source text : List Char) :
      List Lexeme × Option ParseError × Cursor :=
    match _ : piece? text with
    | none => ([], none, ⟨source, text, none, recovery⟩)
    | some piece =>
      match piece.reading with
      | .error fault =>
        ([], some (piece.error fault), ⟨source, piece.behind recovery, none, recovery⟩)
      | .ok token =>
        let (lexemes, error, last) := scan recovery source piece.rest
        (⟨token, piece.slice, piece.start⟩ :: lexemes, error, last)
  termination_by text.length
  decreasing_by exact piece?_rest_lt ‹_›

section

variable {recovery : Recovery} {source text : List Char} {piece : Piece}

theorem scan_none (h : piece? text = none) :
    takeAll.scan recovery source text = ([], none, ⟨source, text, none, recovery⟩) := by
  rw [takeAll.scan]
  split <;> simp_all

theorem scan_error {fault : Fault} (h : piece? text = some piece)
    (hr : piece.reading = .error fault) :
    takeAll.scan recovery source text =
      ([], some (piece.error fault), ⟨source, piece.behind recovery, none, recovery⟩) := by
  rw [takeAll.scan]
  split <;> simp_all

theorem scan_ok {token : Token} (h : piece? text = some piece) (hr : piece.reading = .ok token) :
    takeAll.scan recovery source text =
      (⟨token, piece.slice, piece.start⟩ :: (takeAll.scan recovery source piece.rest).1,
        (takeAll.scan recovery source piece.rest).2) := by
  rw [takeAll.scan]
  split <;> simp_all

end

end Cursor

/-- The tokens of a text, if all of it is taken without an error. -/
def ofText? (text : List Char) : Option (List Token) :=
  match (Cursor.ofText text).takeAll with
  | (lexemes, none, _) => some (lexemes.map (·.token))
  | (_, some _, _) => none

end VectorFormula.Token
