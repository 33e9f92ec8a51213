import VectorFormula.Proofs.Reading.Earliest
/-!
Where in a source an error is: at a lexeme, at a piece that is none, or at the end
(`compile_pointing`). The text before it is read by itself as it is in the source, since a lexeme
does not look at what stands behind it (`Next.cut`).
-/
namespace VectorFormula

def Lexeme.followedBy (after : List Char) (lexeme : Lexeme) : Lexeme :=
  { lexeme with start := lexeme.start ++ after }

namespace Token

open Cursor (Gives)

/-- Whether a text is cut before a lexeme, or at its end. The part before the cut is read to its end
without an error, nothing is skipped in front of the part after it, and the text has the lexemes of
the one part and then those of the other. -/
structure IsCut (before after : List Char) (lexemes : List Lexeme) : Prop where
  reads : ∀ recovery, Gives (.start recovery before) lexemes none
  start : ∀ c ∈ after.head?, isSkipped c = false
  joins : ∀ recovery others error, Gives (.start recovery after) others error →
    Gives (.start recovery (before ++ after)) (lexemes.map (·.followedBy after) ++ others) error

section

variable {text other slice before after : List Char} {lexeme : Lexeme} {lexemes : List Lexeme}
  {error : Option ParseError} {result : Except ParseError (Option (Lexeme × List Char))}

theorem dropWhile_isSkipped_eq_self :
    text.dropWhile isSkipped = text ↔ ∀ c ∈ text.head?, isSkipped c = false := by
  rw [List.dropWhile_eq_self_iff]
  cases text <;> simp

theorem Next.congr (h : Next text result)
    (hd : other.dropWhile isSkipped = text.dropWhile isSkipped) : Next other result := by
  cases h with
  | done hn => exact .done (hd.trans hn)
  | lexeme ha hl hr => exact .lexeme (hd.trans ha) hl hr
  | unexpected hc hn => exact .unexpected (hd.trans hc) hn
  | malformed ha hl hk hp => exact .malformed (hd.trans ha) hl hk hp

theorem Munch.congr (h : Munch text lexemes error)
    (hd : other.dropWhile isSkipped = text.dropWhile isSkipped) : Munch other lexemes error := by
  cases h with
  | done hn => exact .done (hn.congr hd)
  | failed hn => exact .failed (hn.congr hd)
  | lexeme hn hm => exact .lexeme (hn.congr hd) hm

theorem IsLongest.cut {language : Language Char}
    (h : IsLongest language (slice ++ (before ++ after)) slice) :
    IsLongest language (slice ++ before) slice where
  mem := h.mem
  isPrefix := List.prefix_append _ _
  le other ho hpre := by
    apply h.le other ho
    rw [← List.append_assoc]
    exact hpre.trans (List.prefix_append _ _)

theorem next_lexeme_iff {token : Token} {start rest : List Char} :
    Next text (.ok (some (⟨token, slice, start⟩, rest))) ↔ text.dropWhile isSkipped = start ∧
      start = slice ++ rest ∧ IsLongest pattern start slice ∧ Reads slice token := by
  constructor
  · intro h
    have hsplit := h.split.2.1
    cases h with
    | lexeme hd hl hr => exact ⟨hd, hsplit, hl, hr⟩
  · rintro ⟨hd, rfl, hl, hr⟩
    have h := Next.lexeme hd hl hr
    rwa [List.drop_left] at h

theorem Next.next_eq {rest : List Char} (h : Next text (.ok (some (lexeme, rest))))
    (recovery : Recovery) (source : List Char) :
    (Cursor.mk source text none recovery).next =
      (.ok (some lexeme), ⟨source, rest, none, recovery⟩) := by
  rcases Cursor.next_cases recovery source text with ⟨hn, -⟩ | ⟨_, _, hn, he⟩ | ⟨_, hn, -⟩
  · cases h.unique hn
  · cases h.unique hn
    exact he
  · cases h.unique hn

/-- A lexeme is read as it is if the text is cut behind it. -/
theorem Next.cut (h : Next text (.ok (some (lexeme, before ++ after)))) :
    ∃ front cut, text = front ++ after ∧ cut.followedBy after = lexeme ∧
      Next front (.ok (some (cut, before))) := by
  obtain ⟨token, slice, start⟩ := lexeme
  obtain ⟨hd, rfl, hl, hr⟩ := next_lexeme_iff.mp h
  have hne : slice ≠ [] := ne_nil_of_mem_pattern hl.mem
  have hstart : (slice ++ before).dropWhile isSkipped = slice ++ before := by
    have hself : (slice ++ (before ++ after)).dropWhile isSkipped = slice ++ (before ++ after) := by
      rw [← hd, List.dropWhile_idempotent]
    rw [dropWhile_isSkipped_eq_self, List.head?_append_of_ne_nil _ hne] at hself ⊢
    exact hself
  have hgap : ∀ c ∈ text.takeWhile isSkipped, isSkipped c = true :=
    fun c hc => List.mem_takeWhile_imp hc
  refine ⟨text.takeWhile isSkipped ++ (slice ++ before), ⟨token, slice, slice ++ before⟩, ?_, ?_,
    next_lexeme_iff.mpr ⟨?_, rfl, hl.cut, hr⟩⟩
  · rw [List.append_assoc, List.append_assoc, ← hd, List.takeWhile_append_dropWhile]
  · rw [Lexeme.followedBy, List.append_assoc]
  · rw [List.dropWhile_append_of_pos hgap, hstart]

namespace IsCut

theorem front (text : List Char) :
    IsCut (text.takeWhile isSkipped) (text.dropWhile isSkipped) [] where
  reads _ := Cursor.gives_iff.mpr
    (.done (.done (List.dropWhile_eq_nil_iff.mpr fun c hc => List.mem_takeWhile_imp hc)))
  start := dropWhile_isSkipped_eq_self.mp (List.dropWhile_idempotent _ _)
  joins _ others error h := by
    rw [List.takeWhile_append_dropWhile]
    exact Cursor.gives_iff.mpr ((Cursor.gives_iff.mp h).congr (List.dropWhile_idempotent _ _).symm)

theorem behind (hn : Next text (.ok (some (lexeme, before ++ after))))
    (h : IsCut before after lexemes) :
    ∃ front cut, text = front ++ after ∧ IsCut front after (cut :: lexemes) := by
  obtain ⟨front, cut, htext, hcut, hfront⟩ := hn.cut
  refine ⟨front, cut, htext, ?_, h.start, ?_⟩
  · exact fun recovery => Cursor.gives_iff.mpr
      (.lexeme hfront (Cursor.gives_iff.mp (h.reads recovery)))
  · intro recovery others error ho
    rw [← htext, List.map_cons, hcut]
    exact Cursor.gives_iff.mpr (.lexeme hn (Cursor.gives_iff.mp (h.joins recovery others error ho)))

end IsCut

end

end Token

namespace Tokens

open Token (IsCut isSkipped)

theorem ofText_dropWhile (text : List Char) : ofText (text.dropWhile isSkipped) = ofText text := by
  apply ofText_congr
  rw [Token.piece?, Token.piece?, List.dropWhile_idempotent]

theorem exists_isCut {tokens : List Token} {text : List Char} {rest : Tokens}
    (h : Spells tokens (ofText text) rest) :
    ∃ before after lexemes, text = before ++ after ∧ rest = ofText after ∧
      IsCut before after lexemes := by
  -- The cut is behind what is skipped after the last of the tokens. Each token in front of it is read
  -- as before, since nothing behind the cut is looked at.
  induction tokens generalizing text with
  | nil =>
    refine ⟨_, _, [], List.takeWhile_append_dropWhile.symm, ?_, .front text⟩
    rw [ofText_dropWhile]
    exact h.symm
  | cons token tokens ih =>
    obtain ⟨lexeme, left, hn, -, hs⟩ := exists_next_of_spells h
    obtain ⟨before, after, lexemes, rfl, hrest, hcut⟩ := ih hs
    obtain ⟨front, cut, htext, hfront⟩ := hcut.behind hn
    exact ⟨front, after, cut :: lexemes, htext, hrest, hfront⟩

theorem ofText_remaining (text : List Char) :
    (ofText text).remaining = String.ofList (text.dropWhile isSkipped) := by
  rcases ofText_cases text with ⟨hn, he⟩ | ⟨lexeme, rest, hn, he⟩ | ⟨error, hn, he⟩
  · cases hn with
    | done hd => rw [he, hd]; rfl
  · cases hn with
    | lexeme hd => rw [he, hd]; rfl
  · cases hn with
    | unexpected hd | malformed hd => rw [he, hd]; rfl

end Tokens

namespace ParseError

open Token (Cursor Next IsCut)

/-- What an error says that it met, as the source has it. -/
def named? : ParseError → Option String
  | unexpectedToken _ found _ => some found
  | trailingTokens token _ => some token
  | malformedNumber literal _ => some literal
  | unexpectedCharacter character _ => some (String.ofList [character])
  | unexpectedEnd _ | nestingTooDeep .. | lookup .. => none

/-- Whether an error points to where it is in a source: to a lexeme, to a piece that is none, or to
the end. -/
structure PointsInto (source : String) (error : ParseError) : Prop where
  placed : ∃ before lexemes, source.toList = before ++ error.remaining.toList ∧
    IsCut before error.remaining.toList lexemes
  named : ∀ named ∈ error.named?, named ≠ "" ∧ named.toList <+: error.remaining.toList
  lexeme : error.isSyntactic = true → ∀ found ∈ error.named?, ∃ lexeme,
    (∀ recovery, (Cursor.start recovery error.remaining.toList).next.1 = .ok (some lexeme)) ∧
      String.ofList lexeme.slice = found
  closing : ∀ token remaining, error = trailingTokens token remaining →
    token ∈ [")", "]", ",", ":"]
  ended : ∀ expected, error = unexpectedEnd expected →
    ∃ lexemes, ∀ recovery, Cursor.Gives (.start recovery source.toList) lexemes none

variable {text : List Char} {error : ParseError}

theorem IsAt.next_named (h : error.IsAt (.ofText text)) {named : String}
    (hn : named ∈ error.named?) :
    (∃ lexeme rest, Next text (.ok (some (lexeme, rest))) ∧ String.ofList lexeme.slice = named ∧
      error.remaining = String.ofList lexeme.start) ∨ Next text (.error error) := by
  rcases Tokens.ofText_cases text with ⟨-, he⟩ | ⟨lexeme, rest, hnext, he⟩ | ⟨fault, hnext, he⟩
  · rw [he] at h
    cases h <;> cases hn
  · rw [he] at h
    refine .inl ⟨lexeme, rest, hnext, ?_⟩
    cases h <;> cases hn <;> exact ⟨rfl, rfl⟩
  · rw [he] at h
    cases h with
    | bad => exact .inr hnext
    | nesting | lookup => cases hn

theorem IsAt.exists_next (h : error.IsAt (.ofText text)) (hs : error.isSyntactic = true)
    {found : String} (hf : found ∈ error.named?) :
    ∃ lexeme rest, Next text (.ok (some (lexeme, rest))) ∧ String.ofList lexeme.slice = found := by
  rcases h.next_named hf with ⟨lexeme, rest, hn, hslice, -⟩ | hn
  · exact ⟨lexeme, rest, hn, hslice⟩
  · cases hn <;> cases hs

theorem IsAt.named_isPrefix (h : error.IsAt (.ofText text)) {named : String}
    (hn : named ∈ error.named?) : named ≠ "" ∧ named.toList <+: error.remaining.toList := by
  have hslice {slice ahead : List Char} (hne : slice ≠ []) (hpre : slice <+: ahead) :
      String.ofList slice ≠ "" ∧ (String.ofList slice).toList <+: (String.ofList ahead).toList := by
    simpa using ⟨hne, hpre⟩
  rcases h.next_named hn with ⟨lexeme, rest, hnext, rfl, hleft⟩ | hnext
  · obtain ⟨hne, hstart, -⟩ := hnext.split
    rw [hleft]
    exact hslice hne (hstart ▸ List.prefix_append _ _)
  · cases hnext with
    | unexpected =>
      cases hn
      exact hslice (List.cons_ne_nil _ _) (List.prefix_append [_] _)
    | malformed _ hl =>
      cases hn
      exact hslice (Token.ne_nil_of_mem_pattern hl.mem) hl.isPrefix

theorem IsAt.trailing_closes {token remaining : String}
    (h : (trailingTokens token remaining).IsAt (.ofText text)) : token ∈ [")", "]", ",", ":"] := by
  have hspelled : ∀ spelled ∈ Token.Pattern.spellings, spelled.2.isClosing = true →
      String.ofList spelled.1 ∈ [")", "]", ",", ":"] := by
    decide
  rcases Tokens.ofText_cases text with ⟨-, he⟩ | ⟨lexeme, rest, hn, he⟩ | ⟨error, hn, he⟩
  · rw [he] at h
    cases h
  · rw [he] at h
    cases h with
    | trailing _ _ met ht hc =>
      obtain ⟨-, -, -, hr⟩ := Token.next_lexeme_iff.mp hn
      rw [ht] at hr
      cases hr with
      | operator hs => exact hspelled _ hs hc
  · rw [he] at h
    cases h
    cases hn

end ParseError

namespace Expression

/-- An error points to where it is in the source. What is left starts with a lexeme, or a piece that
is none, or is empty, and all before it is read without an error. -/
theorem compile_pointing (registry : Registry) (source : String) (error : ParseError)
    (h : compile registry source = .error error) : error.PointsInto source := by
  obtain ⟨tokens, rest, hs, ha, -⟩ := compile_placed h
  obtain ⟨before, after, lexemes, htext, rfl, hcut⟩ := Tokens.exists_isCut hs
  have hleft : error.remaining.toList = after := by
    rw [ha.remaining_eq, Tokens.ofText_remaining,
      Token.dropWhile_isSkipped_eq_self.mpr hcut.start, String.toList_ofList]
  constructor
  case placed => exact ⟨before, lexemes, hleft ▸ htext, hleft ▸ hcut⟩
  case named => exact fun _ => ha.named_isPrefix
  case lexeme =>
    intro hsyntactic found hf
    obtain ⟨lexeme, rest, hn, hslice⟩ := ha.exists_next hsyntactic hf
    rw [hleft]
    exact ⟨lexeme, fun recovery => congrArg Prod.fst (hn.next_eq recovery after), hslice⟩
  case closing =>
    rintro token remaining rfl
    exact ha.trailing_closes
  case ended =>
    rintro expected rfl
    obtain rfl : [] = after := hleft
    rw [List.append_nil] at htext
    exact ⟨lexemes, htext ▸ hcut.reads⟩

/-- A comma in a group, a delimiter that closes nothing, and a character that no token has. -/
theorem compile_pointing_mixed :
    (compile .builtin "( a,b" = .error (.unexpectedToken (.the .groupEnd) "," ",b") ∧
      (ParseError.unexpectedToken (.the .groupEnd) "," ",b").PointsInto "( a,b") ∧
    (compile .builtin "a ]b" = .error (.trailingTokens "]" "]b") ∧
      (ParseError.trailingTokens "]" "]b").PointsInto "a ]b") ∧
    (compile .builtin "[ @" = .error (.unexpectedCharacter '@' "@") ∧
      (ParseError.unexpectedCharacter '@' "@").PointsInto "[ @") := by
  have hcomma : compile .builtin "( a,b" =
      .error (.unexpectedToken (.the .groupEnd) "," ",b") := by cbv
  have htrailing : compile .builtin "a ]b" = .error (.trailingTokens "]" "]b") := by cbv
  have hcharacter : compile .builtin "[ @" = .error (.unexpectedCharacter '@' "@") := by cbv
  exact ⟨⟨hcomma, compile_pointing _ _ _ hcomma⟩, ⟨htrailing, compile_pointing _ _ _ htrailing⟩,
    ⟨hcharacter, compile_pointing _ _ _ hcharacter⟩⟩

end Expression

end VectorFormula
