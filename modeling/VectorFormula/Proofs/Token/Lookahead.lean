import VectorFormula.Proofs.Token.Munch
/-!
Looking ahead. A look at a lexeme leaves no trace (`dialogue_plain`), but a look at a piece that
is no token takes it (`peek_fault`).
-/
namespace VectorFormula.Token

/-- What a text is from one of its bytes on. -/
def textFrom : List Char → Nat → List Char
  | [], _ => []
  | c :: rest, byte => if byte = 0 then c :: rest else textFrom rest (byte - c.utf8Size)

theorem textFrom_append (before rest : List Char) :
    textFrom (before ++ rest) (Lexeme.byteLength before) = rest := by
  induction before with
  | nil =>
    cases rest with
    | nil => rfl
    | cons c rest => exact if_pos rfl
  | cons c before ih =>
    have hpos := c.utf8Size_pos
    rw [List.cons_append, textFrom, Lexeme.byteLength, if_neg (by omega), Nat.add_sub_cancel_left, ih]

theorem textFrom_span {text : List Char} {lexeme : Lexeme} (h : lexeme.start <:+ text) :
    textFrom text (lexeme.span text).1 = lexeme.start := by
  obtain ⟨before, rfl⟩ := h
  rw [Lexeme.span, Lexeme.byteLength_append, Nat.add_sub_cancel, textFrom_append]

namespace Cursor

inductive Call where
  | next | peek | reset | atEnd | remaining
  deriving DecidableEq, Repr

inductive Answer where
  | found (lexeme : Option Lexeme)
  | failed (error : ParseError)
  | truth (value : Bool)
  | text (text : List Char)
  | nothing

def Answer.ofResult : Except ParseError (Option Lexeme) → Answer
  | .ok lexeme => found lexeme
  | .error error => failed error

/-- The answer to a call, and the cursor after it. -/
def answer (cursor : Cursor) : Call → Answer × Cursor
  | .next => (.ofResult cursor.next.1, cursor.next.2)
  | .peek => (.ofResult cursor.peek.1, cursor.peek.2)
  | .reset => (.nothing, cursor.reset)
  | .atEnd => (.truth cursor.atEnd, cursor)
  | .remaining => (.text cursor.remaining, cursor)

def after (cursor : Cursor) (calls : List Call) : Cursor :=
  calls.foldl (fun cursor call => (cursor.answer call).2) cursor

/-- A place in the list of the lexemes of a source: so many of them are taken. -/
structure Place where
  source : List Char
  lexemes : List Lexeme
  taken : Nat

namespace Place

def next? (place : Place) : Option Lexeme :=
  place.lexemes[place.taken]?

/-- The answer to a call, and the place after it. Only `next` and `reset` move the place, and `next`
does not move it beyond the end. -/
def answer (place : Place) : Call → Answer × Place
  | .next => (.found place.next?,
      { place with taken := min (place.taken + 1) place.lexemes.length })
  | .peek => (.found place.next?, place)
  | .reset => (.nothing, { place with taken := 0 })
  | .atEnd => (.truth (place.taken == place.lexemes.length), place)
  | .remaining =>
    (.text ((place.next?.map fun lexeme =>
      textFrom place.source (lexeme.span place.source).1).getD []), place)

end Place

def dialogue {State : Type} (answer : State → Call → Answer × State) (state : State) :
    List Call → List Answer
  | [] => []
  | call :: calls => (answer state call).1 :: dialogue answer (answer state call).2 calls

/-- All that taking from a cursor can do: give the lexeme that was looked at, come to the end, or
take a piece, which is a lexeme or a fault. -/
inductive Takes : Cursor → Except ParseError (Option Lexeme) × Cursor → Prop
  | kept {source ahead : List Char} {lexeme : Lexeme} {recovery : Recovery} :
    Takes ⟨source, ahead, some lexeme, recovery⟩ (.ok (some lexeme), ⟨source, ahead, none, recovery⟩)
  | ended {source ahead : List Char} {recovery : Recovery} :
    ahead.dropWhile isSkipped = [] →
    Takes ⟨source, ahead, none, recovery⟩ (.ok none, ⟨source, ahead, none, recovery⟩)
  | lexeme {source ahead slice rest : List Char} {token : Token} {recovery : Recovery} :
    ahead.dropWhile isSkipped = slice ++ rest → slice ≠ [] →
    Takes ⟨source, ahead, none, recovery⟩
      (.ok (some ⟨token, slice, slice ++ rest⟩), ⟨source, rest, none, recovery⟩)
  | fault {source ahead passed rest : List Char} {error : ParseError} {recovery : Recovery} :
    ahead.dropWhile isSkipped = passed ++ rest → passed ≠ [] →
    error.remaining = String.ofList (passed ++ rest) →
    Takes ⟨source, ahead, none, recovery⟩ (.error error, ⟨source, rest, none, recovery⟩)

section

variable {cursor : Cursor} {lexeme : Lexeme} {found : Option Lexeme} {error : ParseError}

theorem takes_next (cursor : Cursor) : cursor.Takes cursor.next := by
  rcases cursor with ⟨source, ahead, _ | lexeme, recovery⟩
  · cases hp : piece? ahead with
    | none =>
      simp only [next, read, hp]
      exact .ended (piece?_eq_none.mp hp)
    | some piece =>
      obtain ⟨hd, hs, hne⟩ := piece?_split hp
      cases hr : piece.reading with
      | error fault =>
        obtain ⟨passed, hpos, hpassed⟩ := behind_split hp recovery
        simp only [next, read, hp, hr]
        refine .fault (hd.trans hpassed) hpos ?_
        rw [← hpassed]
        cases fault <;> rfl
      | ok token =>
        simp only [next, read, hp, hr, behind_of_ok hr]
        rw [hs]
        exact .lexeme (hd.trans hs) hne
  · exact .kept

/-- To look is to take, and to keep what was taken; but an error is not kept. -/
theorem peek_eq (cursor : Cursor) :
    cursor.peek = match cursor.next with
      | (.ok seen, passed) => (.ok seen, { passed with peeked := seen })
      | (.error error, passed) => (.error error, passed) := by
  rcases cursor with ⟨source, ahead, _ | lexeme, recovery⟩ <;> rfl

theorem kept_next (cursor : Cursor) :
    cursor.next.2.source = cursor.source ∧ cursor.next.2.recovery = cursor.recovery := by
  have ht := takes_next cursor
  generalize cursor.next = taken at ht ⊢
  cases ht <;> exact ⟨rfl, rfl⟩

theorem peek_result (cursor : Cursor) :
    cursor.peek.1 = cursor.next.1 ∧ cursor.peek.2.source = cursor.source ∧
      cursor.peek.2.recovery = cursor.recovery := by
  have hkept := kept_next cursor
  rw [peek_eq]
  match cursor.next, hkept with
  | (.ok seen, passed), hkept | (.error error, passed), hkept => exact ⟨rfl, hkept⟩

theorem next_of_end (h : cursor.next.1 = .ok none) : cursor.next.2 = cursor := by
  have ht := takes_next cursor
  generalize cursor.next = taken at h ht ⊢
  cases ht <;> cases h
  rfl

theorem next_peek (h : cursor.next.1 = .ok found) : cursor.peek.2.next = cursor.next := by
  have ht := takes_next cursor
  rw [peek_eq]
  generalize hn : cursor.next = taken at h ht ⊢
  cases ht <;> cases h
  · rfl
  · exact hn
  · rfl

theorem remaining_of_next (h : cursor.next.1 = .ok found) :
    cursor.remaining = (found.map (·.start)).getD [] := by
  have ht := takes_next cursor
  generalize cursor.next = taken at h ht
  cases ht with
  | kept => cases h; rfl
  | ended hd | lexeme hd => cases h; exact hd
  | fault => cases h

theorem atEnd_of_next (h : cursor.next.1 = .ok found) : cursor.atEnd = found.isNone := by
  have hall (text : List Char) : text.all isSkipped = (text.dropWhile isSkipped).isEmpty := by
    rw [Bool.eq_iff_iff, List.isEmpty_iff, List.dropWhile_eq_nil_iff, List.all_eq_true]
  have ht := takes_next cursor
  generalize cursor.next = taken at h ht
  cases ht with
  | kept => cases h; rfl
  | ended hd => cases h; simp [atEnd, hall, hd]
  | lexeme hd hne => cases h; simp [atEnd, hall, hd, hne]
  | fault => cases h

theorem peek_of_fault (h : cursor.next.1 = .error error) : cursor.peek = cursor.next := by
  rw [peek_eq]
  rcases hn : cursor.next with ⟨fault | seen, passed⟩
  · rfl
  · rw [hn] at h
    cases h

theorem next_of_fault (h : cursor.next.1 = .error error) :
    ∃ passed rest, passed ≠ [] ∧ cursor.remaining = passed ++ rest ∧
      error.remaining = String.ofList cursor.remaining ∧
      cursor.next.2 = ⟨cursor.source, rest, none, cursor.recovery⟩ := by
  have ht := takes_next cursor
  generalize cursor.next = taken at h ht ⊢
  cases ht with
  | @fault source ahead passed rest error recovery hd hne he =>
    cases h
    exact ⟨passed, rest, hne, hd, by rw [he, remaining, hd], rfl⟩
  | _ => cases h

end

namespace Gives

variable {cursor other : Cursor} {lexeme : Lexeme} {lexemes : List Lexeme} {error : Option ParseError}

theorem next_nil (h : Gives cursor [] none) : cursor.next.1 = .ok none := by
  cases h
  assumption

theorem next_cons (h : Gives cursor (lexeme :: lexemes) error) :
    cursor.next.1 = .ok (some lexeme) ∧ Gives cursor.next.2 lexemes error := by
  cases h with
  | lexeme hn hg => exact ⟨hn, hg⟩

theorem congr (h : Gives cursor lexemes error) (hn : other.next = cursor.next) :
    Gives other lexemes error := by
  cases h with
  | done hd => exact .done (hn ▸ hd)
  | failed hf => exact .failed (hn ▸ hf)
  | lexeme hl hg => exact .lexeme (hn ▸ hl) (hn ▸ hg)

end Gives

/-- Whether a cursor is at a place in the list of the lexemes of its source, whatever it has looked
at. -/
structure StandsAt (cursor : Cursor) (place : Place) : Prop where
  source : cursor.source = place.source
  all : Munch place.source place.lexemes none
  left : Gives cursor (place.lexemes.drop place.taken) none
  within : place.taken ≤ place.lexemes.length

namespace StandsAt

variable {cursor : Cursor} {place : Place}

theorem next (h : cursor.StandsAt place) :
    cursor.next.1 = .ok place.next? ∧
      Gives cursor.next.2 (place.lexemes.drop (min (place.taken + 1) place.lexemes.length)) none := by
  have hleft := h.left
  cases hn : place.next? with
  | none =>
    have hle : place.lexemes.length ≤ place.taken := List.getElem?_eq_none_iff.mp hn
    rw [List.drop_eq_nil_of_le hle] at hleft
    rw [min_eq_right (Nat.le_succ_of_le hle), List.drop_length, next_of_end hleft.next_nil]
    exact ⟨hleft.next_nil, hleft⟩
  | some lexeme =>
    obtain ⟨hlt, hl⟩ := List.getElem?_eq_some_iff.mp hn
    rw [List.drop_eq_getElem_cons hlt, hl] at hleft
    rw [min_eq_left hlt]
    exact hleft.next_cons

theorem textFrom_start (h : cursor.StandsAt place) {lexeme : Lexeme}
    (hl : place.next? = some lexeme) :
    textFrom place.source (lexeme.span place.source).1 = lexeme.start :=
  textFrom_span (h.all.placed lexeme (List.mem_of_getElem? hl)).2.2

/-- A cursor answers as its place does, and goes on to the place that is next. -/
theorem answer (h : cursor.StandsAt place) (call : Call) :
    (cursor.answer call).1 = (place.answer call).1 ∧
      (cursor.answer call).2.StandsAt (place.answer call).2 := by
  obtain ⟨hn, hleft⟩ := h.next
  obtain ⟨hp, hsource, -⟩ := peek_result cursor
  cases call with
  | next =>
    exact ⟨congrArg Answer.ofResult hn, (kept_next cursor).1.trans h.source, h.all, hleft,
      Nat.min_le_right _ _⟩
  | peek =>
    exact ⟨congrArg Answer.ofResult (hp.trans hn), hsource.trans h.source, h.all,
      h.left.congr (next_peek hn), h.within⟩
  | reset =>
    refine ⟨rfl, h.source, h.all, ?_, Nat.zero_le _⟩
    rw [Cursor.answer, Cursor.reset, h.source]
    exact gives_iff.mpr h.all
  | atEnd =>
    refine ⟨congrArg Answer.truth ?_, h⟩
    rw [atEnd_of_next hn, Place.next?, Bool.eq_iff_iff, beq_iff_eq, Option.isNone_iff_eq_none,
      List.getElem?_eq_none_iff]
    exact ⟨Nat.le_antisymm h.within, fun he => Nat.le_of_eq he.symm⟩
  | remaining =>
    refine ⟨congrArg Answer.text ?_, h⟩
    rw [remaining_of_next hn]
    cases hl : place.next? with
    | none => rfl
    | some lexeme => exact (h.textFrom_start hl).symm

theorem dialogue_eq (h : cursor.StandsAt place) (calls : List Call) :
    dialogue Cursor.answer cursor calls = dialogue Place.answer place calls := by
  induction calls generalizing cursor place with
  | nil => rfl
  | cons call calls ih =>
    obtain ⟨ha, hafter⟩ := h.answer call
    rw [dialogue, dialogue, ha, ih hafter]

end StandsAt

/-- A cursor over a text that is read without an error answers any calls as a place in the list of its
lexemes does, whatever is looked at on the way. -/
theorem dialogue_plain (recovery : Recovery) (text : List Char) (lexemes : List Lexeme)
    (h : Gives (start recovery text) lexemes none) (calls : List Call) :
    dialogue answer (start recovery text) calls =
      dialogue Place.answer ⟨text, lexemes, 0⟩ calls :=
  StandsAt.dialogue_eq ⟨rfl, gives_iff.mp h, h, Nat.zero_le _⟩ calls

/-- A name of more bytes than characters, and a bracket that is looked at twice. -/
theorem dialogue_plain_quotation :
    let name : Lexeme := ⟨.identifier ["é"], "\x7bé\x7d".toList, "\x7bé\x7d ]".toList⟩
    let bracket : Lexeme := ⟨.operator .vectorEnd, [']'], [']']⟩
    Gives (ofText " \x7bé\x7d ]".toList) [name, bracket] none ∧
      dialogue answer (ofText " \x7bé\x7d ]".toList)
          [.peek, .next, .remaining, .peek, .remaining, .atEnd, .next, .atEnd, .peek, .reset,
            .remaining] =
        [.found name, .found name, .text [']'], .found bracket, .text [']'], .truth false,
          .found bracket, .truth true, .found none, .nothing, .text "\x7bé\x7d ]".toList] := by
  intro name bracket
  have h : Gives (ofText " \x7bé\x7d ]".toList) [name, bracket] none :=
    .lexeme (by rfl) (.lexeme (by rfl) (.done (by rfl)))
  exact ⟨h, (dialogue_plain _ _ _ h _).trans (by rfl)⟩

theorem kept_answer (cursor : Cursor) (call : Call) :
    (cursor.answer call).2.source = cursor.source ∧
      (cursor.answer call).2.recovery = cursor.recovery := by
  cases call with
  | next => exact kept_next cursor
  | peek => exact (peek_result cursor).2
  | reset | atEnd | remaining => exact ⟨rfl, rfl⟩

theorem kept_after (cursor : Cursor) (calls : List Call) :
    (cursor.after calls).source = cursor.source ∧
      (cursor.after calls).recovery = cursor.recovery := by
  induction calls generalizing cursor with
  | nil => exact ⟨rfl, rfl⟩
  | cons call calls ih =>
    obtain ⟨hs, hr⟩ := kept_answer cursor call
    obtain ⟨hsource, hrecovery⟩ := ih (cursor.answer call).2
    exact ⟨hsource.trans hs, hrecovery.trans hr⟩

/-- Wherever calls have led, a look that fails takes the piece that is no token, as `next` would: the
error has the text from that piece on, but what is left then is what follows it. So what is left is
not the same as before, and the error does not come again. -/
theorem peek_fault (recovery : Recovery) (text : List Char) (calls : List Call) (error : ParseError)
    (h : ((start recovery text).after calls).peek.1 = .error error) :
    let cursor := (start recovery text).after calls
    cursor.peek = cursor.next ∧ error.remaining = String.ofList cursor.remaining ∧
      (∃ passed rest, passed ≠ [] ∧ cursor.remaining = passed ++ rest ∧
        cursor.peek.2 = ⟨text, rest, none, recovery⟩) ∧
      cursor.peek.2.remaining ≠ cursor.remaining ∧ cursor.peek.2.next.1 ≠ .error error ∧
      cursor.peek.2.peek.1 ≠ .error error := by
  intro cursor
  have hn : cursor.next.1 = .error error := (peek_result cursor).1.symm.trans h
  have hpeek : cursor.peek = cursor.next := peek_of_fault hn
  obtain ⟨passed, rest, hne, hleft, herror, hafter⟩ := next_of_fault hn
  rw [(kept_after _ calls).1, (kept_after _ calls).2] at hafter
  have hshort : cursor.next.2.remaining ≠ cursor.remaining := by
    intro he
    have hle := (List.dropWhile_suffix isSkipped : rest.dropWhile isSkipped <:+ rest).length_le
    have hlength := congrArg List.length he
    rw [hafter, hleft, List.length_append] at hlength
    have hpos := List.length_pos_iff.mpr hne
    simp only [remaining] at hlength
    omega
  have hother : cursor.next.2.next.1 ≠ .error error := by
    intro he
    obtain ⟨_, _, _, _, hagain, _⟩ := next_of_fault he
    exact hshort (String.ofList_injective (hagain.symm.trans herror))
  rw [hpeek, (peek_result _).1]
  exact ⟨rfl, herror, ⟨passed, rest, hne, hleft, hafter⟩, hshort, hother, hother⟩

/-- A look at a character that no token has, after a name was taken and the character was looked at
and passed over once before. -/
theorem peek_fault_again :
    let cursor := (ofText "a @ @ b".toList).after [.next, .peek]
    cursor.peek.1 = .error (.unexpectedCharacter '@' "@ b") ∧ cursor.remaining = "@ b".toList ∧
      cursor.peek = cursor.next ∧ cursor.peek.2.remaining ≠ cursor.remaining := by
  intro cursor
  have h : cursor.peek.1 = .error (.unexpectedCharacter '@' "@ b") := by rfl
  obtain ⟨hnext, -, -, hleft, -⟩ := peek_fault .standard "a @ @ b".toList [.next, .peek] _ h
  exact ⟨h, by rfl, hnext, hleft⟩

/-- A look that fails is not without a trace: the number behind the character is next. -/
theorem peek_fault_not_kept :
    ¬ ∀ (text : List Char) (calls : List Call) (error : ParseError),
      let cursor := (ofText text).after calls
      cursor.peek.1 = .error error → cursor.peek.2.remaining = cursor.remaining ∧
        cursor.peek.2.next.1 = .error error ∧ cursor.peek.2.peek.1 = .error error := by
  intro hall
  have h := hall "@ 1".toList [] (.unexpectedCharacter '@' "@ 1") (by rfl)
  exact absurd h.1 (by decide)

end Cursor

end VectorFormula.Token
