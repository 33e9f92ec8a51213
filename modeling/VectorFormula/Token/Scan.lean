import VectorFormula.Token
import VectorFormula.Error
import VectorFormula.Decimal.Reading
/-!
Reading one token at the front of a text. Each kind of token has a length: that of its longest
match at the front, or zero. No two kinds match at one place. Where nothing matches, it is up to
the recovery of the lexer how much is passed over.
-/
namespace VectorFormula.Token

def isSkipped (c : Char) : Bool :=
  c == ' ' || c == '\t' || c == '\n' || c == '\r'

def isNameStart (c : Char) : Bool :=
  c.isAlpha || c == '_'

def isNamePart (c : Char) : Bool :=
  c.isAlphanum || c == '_'

/-- How many characters at the front are parts, dots with a part after them counting too. -/
def dottedLength (isPart : Char → Bool) : List Char → Nat
  | '.' :: c :: rest => if isPart c then dottedLength isPart rest + 2 else 0
  | c :: rest => if isPart c then dottedLength isPart rest + 1 else 0
  | [] => 0

def exponentLength : List Char → Nat
  | mark :: rest =>
    if mark == 'e' || mark == 'E' then
      let digits := (Decimal.splitSign rest).2
      let count := (digits.takeWhile Char.isDigit).length
      if count = 0 then 0 else rest.length - digits.length + 1 + count
    else 0
  | [] => 0

def mantissaLength : List Char → Nat
  | '.' :: c :: rest => if c.isDigit then dottedLength Char.isDigit rest + 2 else 0
  | c :: rest => if c.isDigit then dottedLength Char.isDigit rest + 1 else 0
  | [] => 0

/-- The length of a number: digits and dots, then an exponent if it is complete. -/
def numberLength (text : List Char) : Nat :=
  let mantissa := mantissaLength text
  if mantissa = 0 then 0 else mantissa + exponentLength (text.drop mantissa)

def pathLength : List Char → Nat
  | c :: rest => if isNameStart c then dottedLength isNamePart rest + 1 else 0
  | [] => 0

/-- The length of a name in braces, if the closing brace is there. -/
def quotationLength : List Char → Nat
  | '\x7b' :: rest =>
    let name := rest.takeWhile (· ≠ '\x7d')
    if name.length < rest.length then name.length + 2 else 0
  | _ => 0

/-- The operator at the front, and its length. Of two that match the longer one is meant. -/
def operator? : List Char → Option (Operator × Nat)
  | '*' :: '*' :: _ => some (.power, 2)
  | '=' :: '=' :: _ => some (.equal, 2)
  | '>' :: '=' :: _ => some (.greaterOrEqual, 2)
  | '<' :: '=' :: _ => some (.lessOrEqual, 2)
  | '|' :: '|' :: _ => some (.or, 2)
  | '&' :: '&' :: _ => some (.and, 2)
  | '.' :: '.' :: _ => some (.range, 2)
  | '^' :: _ => some (.power, 1)
  | '*' :: _ => some (.multiply, 1)
  | '/' :: _ => some (.divide, 1)
  | '%' :: _ => some (.modulo, 1)
  | '+' :: _ => some (.plus, 1)
  | '-' :: _ => some (.minus, 1)
  | '!' :: _ => some (.negate, 1)
  | '~' :: _ => some (.complement, 1)
  | '>' :: _ => some (.greater, 1)
  | '<' :: _ => some (.less, 1)
  | '?' :: _ => some (.ternaryTrue, 1)
  | ':' :: _ => some (.ternaryFalse, 1)
  | '(' :: _ => some (.groupStart, 1)
  | ')' :: _ => some (.groupEnd, 1)
  | '[' :: _ => some (.vectorStart, 1)
  | ']' :: _ => some (.vectorEnd, 1)
  | ',' :: _ => some (.comma, 1)
  | _ => none

def splitDots : List Char → List (List Char)
  | [] => [[]]
  | '.' :: rest => [] :: splitDots rest
  | c :: rest =>
    match splitDots rest with
    | [] => [[c]]
    | part :: parts => (c :: part) :: parts

inductive Fault where
  | character (c : Char)
  | number
  deriving DecidableEq, Repr

/-- What stands at the front of a text that starts with `c`, and how long it is. Where nothing matches,
that is the first character. -/
def classify (c : Char) (text : List Char) : Except Fault Token × Nat :=
  if numberLength text ≠ 0 then
    let length := numberLength text
    match Decimal.read? (text.take length) with
    | some value => (.ok (.number value), length)
    | none => (.error .number, length)
  else if pathLength text ≠ 0 then
    let length := pathLength text
    (.ok (.identifier ((splitDots (text.take length)).map String.ofList)), length)
  else if quotationLength text ≠ 0 then
    let length := quotationLength text
    (.ok (.identifier [String.ofList ((text.take (length - 1)).drop 1)]), length)
  else
    match operator? text with
    | some (op, length) => (.ok (.operator op), length)
    | none => (.error (.character c), 1)

/-- A piece of a text: what it reads as, its characters, the text from it on, and what follows. -/
structure Piece where
  reading : Except Fault Token
  slice : List Char
  start : List Char
  rest : List Char

def piece? (text : List Char) : Option Piece :=
  match text.dropWhile isSkipped with
  | [] => none
  | c :: rest =>
    let found := classify c (c :: rest)
    some ⟨found.1, (c :: rest).take found.2, c :: rest, (c :: rest).drop found.2⟩

def Piece.error (piece : Piece) : Fault → ParseError
  | .character c => .unexpectedCharacter c (String.ofList piece.start)
  | .number => .malformedNumber (String.ofList piece.slice) (String.ofList piece.start)

/-- How a lexer goes on where nothing matches: how many characters of the text from there on it passes
over, which is at least one. -/
structure Recovery where
  length : List Char → Nat
  pos : ∀ text, 0 < length text

/-- Passes over an unclosed quotation to the end of the text, and over any other character alone. -/
def Recovery.standard : Recovery where
  length
    | '\x7b' :: rest => rest.length + 1
    | _ => 1
  pos text := by split <;> exact Nat.succ_pos _

def Piece.behind (piece : Piece) (recovery : Recovery) : List Char :=
  match piece.reading with
  | .error (.character _) => piece.start.drop (recovery.length piece.start)
  | _ => piece.rest

theorem classify_pos (c : Char) (rest : List Char) : 0 < (classify c (c :: rest)).2 := by
  unfold classify
  split
  · rename_i h
    dsimp only
    split <;> exact Nat.pos_of_ne_zero h
  · split
    · exact Nat.pos_of_ne_zero (by assumption)
    · split
      · exact Nat.pos_of_ne_zero (by assumption)
      · split
        · rename_i op length h
          unfold operator? at h
          split at h <;> first | (cases h; decide) | cases h
        · exact Nat.one_pos

section

variable {text : List Char} {piece : Piece}

theorem piece?_eq_none : piece? text = none ↔ text.dropWhile isSkipped = [] := by
  unfold piece?
  split <;> simp_all

/-- A piece is where the skipped characters end: some characters of the text, and what follows. -/
theorem piece?_split (h : piece? text = some piece) :
    text.dropWhile isSkipped = piece.start ∧ piece.start = piece.slice ++ piece.rest ∧
      piece.slice ≠ [] := by
  unfold piece? at h
  split at h
  · cases h
  · rename_i c rest hd
    obtain rfl := Option.some.inj h
    refine ⟨hd, (List.take_append_drop _ _).symm, ?_⟩
    rw [ne_eq, List.take_eq_nil_iff, not_or]
    exact ⟨Nat.ne_of_gt (classify_pos c rest), List.cons_ne_nil _ _⟩

theorem behind_of_ok {token : Token} (hr : piece.reading = .ok token) (recovery : Recovery) :
    piece.behind recovery = piece.rest := by
  rw [Piece.behind, hr]

theorem behind_split (h : piece? text = some piece) (recovery : Recovery) :
    ∃ passed, passed ≠ [] ∧ piece.start = passed ++ piece.behind recovery := by
  obtain ⟨-, hs, hne⟩ := piece?_split h
  unfold Piece.behind
  split
  · refine ⟨_, ?_, (List.take_append_drop (recovery.length piece.start) _).symm⟩
    rw [ne_eq, List.take_eq_nil_iff, not_or]
    exact ⟨Nat.ne_of_gt (recovery.pos _), hs ▸ List.append_ne_nil_of_left_ne_nil hne _⟩
  · exact ⟨_, hne, hs⟩

theorem piece?_rest_lt (h : piece? text = some piece) : piece.rest.length < text.length := by
  obtain ⟨hd, hs, hne⟩ := piece?_split h
  have hle := (List.dropWhile_suffix (p := isSkipped) (l := text)).length_le
  have hpos := List.length_pos_iff.mpr hne
  rw [hd, hs, List.length_append] at hle
  omega

end

end VectorFormula.Token
