import Mathlib
import VectorFormula.Proofs.Decimal.Literal
import VectorFormula.Proofs.Token.Pattern
import VectorFormula.Token.Cursor
import VectorFormula.Token.Stream
/-!
Maximal munch. Taking lexemes from a cursor one after another cuts the text into the longest
matches of the patterns of tokens (`Cursor.gives_munch`).
-/
namespace VectorFormula.Token

/-- The token that a slice is read as, by the pattern that it matches. -/
inductive Reads (slice : List Char) : Token → Prop
  | number {value : ℚ} {x : Float} :
    slice ∈ Kind.number.pattern → Decimal.Literal slice value → Number.RoundsTo value x →
    Reads slice (.number x)
  | path :
    slice ∈ Kind.path.pattern →
    Reads slice (.identifier ((slice.splitOn '.').map String.ofList))
  | quotation {name : List Char} :
    slice ∈ Kind.quotation.pattern → slice = '\x7b' :: (name ++ ['\x7d']) →
    Reads slice (.identifier [String.ofList name])
  | operator {found : Operator} :
    (slice, found) ∈ Pattern.spellings → Reads slice (.operator found)

/-- What a text goes on with by maximal munch, after skipped characters: nothing, or a lexeme and the
text after it, or an error. -/
inductive Next (text : List Char) : Except ParseError (Option (Lexeme × List Char)) → Prop
  | done : text.dropWhile isSkipped = [] → Next text (.ok none)
  | lexeme {ahead slice : List Char} {token : Token} :
    text.dropWhile isSkipped = ahead → IsLongest pattern ahead slice → Reads slice token →
    Next text (.ok (some (⟨token, slice, ahead⟩, ahead.drop slice.length)))
  | unexpected {c : Char} {rest : List Char} :
    text.dropWhile isSkipped = c :: rest → (∀ slice ∈ pattern, ¬ slice <+: c :: rest) →
    Next text (.error (.unexpectedCharacter c (String.ofList (c :: rest))))
  | malformed {ahead slice : List Char} :
    text.dropWhile isSkipped = ahead → IsLongest pattern ahead slice →
    slice ∈ Kind.number.pattern → 2 ≤ slice.count '.' →
    Next text (.error (.malformedNumber (String.ofList slice) (String.ofList ahead)))

/-- The lexemes of a text by maximal munch, until the end or the first error. -/
inductive Munch : List Char → List Lexeme → Option ParseError → Prop
  | done {text : List Char} : Next text (.ok none) → Munch text [] none
  | failed {text : List Char} {error : ParseError} :
    Next text (.error error) → Munch text [] (some error)
  | lexeme {text rest : List Char} {lexeme : Lexeme} {lexemes : List Lexeme}
      {error : Option ParseError} :
    Next text (.ok (some (lexeme, rest))) → Munch rest lexemes error →
    Munch text (lexeme :: lexemes) error

/-- Whether lexemes stand in a text one after another, none of them empty, with nothing but skipped
characters before each of them. What is left after the last one is skipped too, unless there is an
error. -/
structure Covers (text : List Char) (lexemes : List Lexeme) (error : Option ParseError) : Prop where
  placed : ∀ lexeme ∈ lexemes, lexeme.slice <+: lexeme.start ∧ lexeme.start <:+ text
  nonempty : ∀ lexeme ∈ lexemes, (lexeme.span text).1 < (lexeme.span text).2
  ordered : lexemes.Pairwise fun earlier later => (earlier.span text).2 ≤ (later.span text).1
  skipped : ∃ gaps rest, gaps.length = lexemes.length ∧
    (∀ gap ∈ gaps, ∀ c ∈ gap, isSkipped c = true) ∧
    text = (List.zipWith (fun gap lexeme => gap ++ lexeme.slice) gaps lexemes).flatten ++ rest ∧
    (error = none ↔ ∀ c ∈ rest, isSkipped c = true)

namespace Cursor

/-- The lexemes that a cursor gives one after another, until the end or the first error. -/
inductive Gives : Cursor → List Lexeme → Option ParseError → Prop
  | done {cursor : Cursor} : cursor.next.1 = .ok none → Gives cursor [] none
  | failed {cursor : Cursor} {error : ParseError} :
    cursor.next.1 = .error error → Gives cursor [] (some error)
  | lexeme {cursor : Cursor} {lexeme : Lexeme} {lexemes : List Lexeme} {error : Option ParseError} :
    cursor.next.1 = .ok (some lexeme) → Gives cursor.next.2 lexemes error →
    Gives cursor (lexeme :: lexemes) error

end Cursor

section

variable {text slice other : List Char} {kind : Kind} {token : Token}

theorem IsLongest.unique {language : Language Char} (h : IsLongest language text slice)
    (ho : IsLongest language text other) : other = slice := by
  have hlength : other.length = slice.length :=
    le_antisymm (h.le other ho.mem ho.isPrefix) (ho.le slice h.mem h.isPrefix)
  rw [List.prefix_iff_eq_take.mp ho.isPrefix, List.prefix_iff_eq_take.mp h.isPrefix, hlength]

theorem Kind.isLongest (h : kind.length text ≠ 0) :
    IsLongest Token.pattern text (text.take (kind.length text)) where
  mem := Kind.mem_pattern.mpr ⟨kind, kind.measures.mem h⟩
  isPrefix := List.take_prefix _ _
  le other ho hpre := by
    obtain ⟨found, hf⟩ := Kind.mem_pattern.mp ho
    have hkind : found = kind :=
      (ofStart_eq hf hpre).symm.trans
        (ofStart_eq (kind.measures.mem h) (List.take_prefix _ _))
    rw [List.length_take]
    exact le_min (kind.measures.le (hkind ▸ hf) hpre) hpre.length_le

theorem Kind.unique {found : Kind} (h : slice ∈ kind.pattern) (hf : slice ∈ found.pattern) :
    found = kind :=
  (ofStart_eq hf List.prefix_rfl).symm.trans (ofStart_eq h List.prefix_rfl)

theorem ne_nil_of_mem_pattern (h : slice ∈ pattern) : slice ≠ [] := by
  obtain ⟨kind, hk⟩ := Kind.mem_pattern.mp h
  rintro rfl
  -- The empty slice is at the front of texts that start differently.
  have hletter : Kind.path = kind := Kind.ofStart_eq hk (List.nil_prefix : [] <+: ['a'])
  have hbrace : Kind.quotation = kind := Kind.ofStart_eq hk (List.nil_prefix : [] <+: ['\x7b'])
  exact nomatch hletter.trans hbrace.symm

theorem splitDots_eq (text : List Char) : splitDots text = text.splitOn '.' := by
  fun_induction splitDots text with
  | case1 => rfl
  | case2 rest ih => rw [List.splitOn, List.splitOnP_cons_eq_if_modifyHead, ← List.splitOn, ih]; rfl
  | case3 c rest hc hn ih | case4 c rest hc part parts hp ih =>
    rw [List.splitOn, List.splitOnP_cons_eq_if_modifyHead, ← List.splitOn, ← ih,
      if_neg (by simpa using hc)]
    simp_all

theorem Reads.unique {another : Token} (h : Reads slice token) (ho : Reads slice another) :
    another = token := by
  have hoperator {found : Operator} (hs : (slice, found) ∈ Pattern.spellings) :
      slice ∈ Kind.operator.pattern := ⟨found, hs⟩
  cases h with
  | number hk hl hx =>
    cases ho with
    | number _ hm hy =>
      rw [hl.unique hm] at hy
      rw [hx.unique hy]
    | path ho | quotation ho => exact nomatch Kind.unique hk ho
    | operator ho => exact nomatch Kind.unique hk (hoperator ho)
  | path hk =>
    cases ho with
    | path => rfl
    | number ho | quotation ho => exact nomatch Kind.unique hk ho
    | operator ho => exact nomatch Kind.unique hk (hoperator ho)
  | quotation hk hs =>
    cases ho with
    | quotation _ ho =>
      rw [hs] at ho
      simp_all
    | number ho | path ho => exact nomatch Kind.unique hk ho
    | operator ho => exact nomatch Kind.unique hk (hoperator ho)
  | operator hs =>
    cases ho with
    | operator ho =>
      have hspelled : ∀ a ∈ Pattern.spellings, ∀ b ∈ Pattern.spellings, a.1 = b.1 → a.2 = b.2 := by
        decide
      exact congrArg Token.operator (hspelled _ ho _ hs rfl)
    | number ho | path ho | quotation ho => exact nomatch Kind.unique (hoperator hs) ho

theorem Next.unique {result another : Except ParseError (Option (Lexeme × List Char))}
    (h : Next text result) (ho : Next text another) : another = result := by
  have hnil {slice : List Char} (hd : text.dropWhile isSkipped = [])
      (hl : IsLongest pattern (text.dropWhile isSkipped) slice) : False := by
    rw [hd] at hl
    exact ne_nil_of_mem_pattern hl.mem (List.prefix_nil.mp hl.isPrefix)
  have hnone {slice : List Char} {c : Char} {rest : List Char}
      (hc : text.dropWhile isSkipped = c :: rest) (hn : ∀ slice ∈ pattern, ¬ slice <+: c :: rest)
      (hl : IsLongest pattern (text.dropWhile isSkipped) slice) : False := by
    rw [hc] at hl
    exact hn slice hl.mem hl.isPrefix
  have hmalformed {slice : List Char} {token : Token} (hr : Reads slice token)
      (hk : slice ∈ Kind.number.pattern) (hp : 2 ≤ slice.count '.') : False := by
    cases hr with
    | number _ hl => exact absurd hl.count_point_le (Nat.not_le_of_lt hp)
    | path hr | quotation hr => exact nomatch Kind.unique hk hr
    | operator hr => exact nomatch @Kind.unique _ .number .operator hk ⟨_, hr⟩
  cases h with
  | done hd =>
    cases ho with
    | done => rfl
    | unexpected hc => rw [hd] at hc; cases hc
    | lexeme ha hl | malformed ha hl => subst ha; exact (hnil hd hl).elim
  | lexeme ha hl hr =>
    subst ha
    cases ho with
    | done hd => exact (hnil hd hl).elim
    | unexpected hc hn => exact (hnone hc hn hl).elim
    | lexeme hb hm hs =>
      subst hb
      cases hl.unique hm
      rw [hr.unique hs]
    | malformed hb hm hk hp =>
      subst hb
      cases hl.unique hm
      exact (hmalformed hr hk hp).elim
  | unexpected hc hn =>
    cases ho with
    | done hd => rw [hd] at hc; cases hc
    | unexpected hd =>
      rw [hc] at hd
      cases hd
      rfl
    | lexeme ha hl | malformed ha hl => subst ha; exact (hnone hc hn hl).elim
  | malformed ha hl hk hp =>
    subst ha
    cases ho with
    | done hd => exact (hnil hd hl).elim
    | unexpected hc hn => exact (hnone hc hn hl).elim
    | lexeme hb hm hs =>
      subst hb
      cases hl.unique hm
      exact (hmalformed hs hk hp).elim
    | malformed hb hm =>
      subst hb
      cases hl.unique hm
      rfl

private theorem name_of_take {name : List Char}
    (h : text.take (quotationLength text) = '\x7b' :: (name ++ ['\x7d'])) :
    (text.take (quotationLength text - 1)).drop 1 = name := by
  have hle : quotationLength text ≤ text.length := by
    unfold quotationLength
    split
    · simp only [List.length_cons]
      split <;> omega
    · exact Nat.zero_le _
  have hlength : quotationLength text = name.length + 2 := by
    rw [← List.length_take_of_le hle, h]
    simp
  have htake : text.take (quotationLength text - 1) =
      (text.take (quotationLength text)).take (quotationLength text - 1) := by
    rw [List.take_take, min_eq_left (Nat.sub_le _ _)]
  rw [htake, h, hlength]
  simp

/-- What stands at the front of a text is classified by the longest match. -/
theorem classify_spec (c : Char) (rest : List Char) :
    (∃ token length, classify c (c :: rest) = (.ok token, length) ∧
      IsLongest pattern (c :: rest) ((c :: rest).take length) ∧
      Reads ((c :: rest).take length) token) ∨
    (∃ length, classify c (c :: rest) = (.error .number, length) ∧
      IsLongest pattern (c :: rest) ((c :: rest).take length) ∧
      (c :: rest).take length ∈ Kind.number.pattern ∧
      2 ≤ ((c :: rest).take length).count '.') ∨
    (classify c (c :: rest)).1 = .error (.character c) ∧
      ∀ slice ∈ pattern, ¬ slice <+: c :: rest := by
  generalize htext : c :: rest = text
  by_cases hn : numberLength text = 0
  · by_cases hp : pathLength text = 0
    · by_cases hq : quotationLength text = 0
      · cases ho : operator? text with
        | some found =>
          have hs := Pattern.mem_spellings_of_operator? ho
          have hlength : Kind.operator.length text = found.2 := by
            rw [Kind.length, Pattern.operatorLength, ho]
            rfl
          have hl : IsLongest pattern text (text.take found.2) := by
            rw [← hlength]
            apply Kind.isLongest
            intro hz
            rw [← hlength, hz] at hs
            exact ne_nil_of_mem_pattern (Kind.mem_pattern.mpr ⟨.operator, found.1, hs⟩) rfl
          exact .inl ⟨_, found.2, by simp [classify, hn, hp, hq, ho], hl, .operator hs⟩
        | none =>
          refine .inr (.inr ⟨by simp [classify, hn, hp, hq, ho], fun slice hs hpre => ?_⟩)
          obtain ⟨kind, hk⟩ := Kind.mem_pattern.mp hs
          have hzero : kind.length text = 0 := by
            cases kind with
            | operator =>
              rw [Kind.length, Pattern.operatorLength, ho]
              rfl
            | _ => assumption
          have hle := kind.measures.le hk hpre
          rw [hzero] at hle
          exact ne_nil_of_mem_pattern hs (List.length_eq_zero_iff.mp (Nat.le_zero.mp hle))
      · left
        have hl : IsLongest pattern text (text.take (quotationLength text)) :=
          Kind.quotation.isLongest hq
        have hm : text.take (quotationLength text) ∈ Kind.quotation.pattern :=
          Kind.quotation.measures.mem hq
        obtain ⟨name, -, hs⟩ := Pattern.mem_quotation.mp hm
        refine ⟨_, _, ?_, hl, .quotation hm hs⟩
        rw [← name_of_take hs]
        simp [classify, hn, hp, hq]
    · left
      have hl : IsLongest pattern text (text.take (pathLength text)) := Kind.path.isLongest hp
      refine ⟨_, pathLength text, ?_, hl, .path (Kind.path.measures.mem hp)⟩
      rw [← splitDots_eq]
      simp [classify, hn, hp]
  · have hl : IsLongest pattern text (text.take (numberLength text)) := Kind.number.isLongest hn
    have hm : text.take (numberLength text) ∈ Kind.number.pattern := Kind.number.measures.mem hn
    rcases Decimal.read?_of_number hm with ⟨value, x, hv, hr, hx⟩ | ⟨hc, hr⟩
    · exact .inl ⟨_, _, by simp [classify, hn, hr], hl, .number hm hv hx⟩
    · exact .inr (.inl ⟨_, by simp [classify, hn, hr], hl, hm, hc⟩)

theorem Next.length_lt {lexeme : Lexeme} {rest : List Char}
    (h : Next text (.ok (some (lexeme, rest)))) : rest.length < text.length := by
  cases h with
  | lexeme ha hl hr =>
    subst ha
    have hle := (List.dropWhile_suffix isSkipped : text.dropWhile isSkipped <:+ text).length_le
    have hslice := hl.isPrefix.length_le
    have hpos := List.length_pos_iff.mpr (ne_nil_of_mem_pattern hl.mem)
    rw [List.length_drop]
    omega

end

namespace Cursor

private theorem drop_length_take (text : List Char) (length : Nat) :
    text.drop (text.take length).length = text.drop length := by
  rw [List.length_take]
  rcases Nat.le_total length text.length with h | h
  · rw [Nat.min_eq_left h]
  · rw [Nat.min_eq_right h, List.drop_length, List.drop_eq_nil_of_le h]

theorem next_cases (recovery : Recovery) (source text : List Char) :
    (Next text (.ok none) ∧ (Cursor.mk source text none recovery).next.1 = .ok none) ∨
    (∃ lexeme rest, Next text (.ok (some (lexeme, rest))) ∧
      (Cursor.mk source text none recovery).next = (.ok (some lexeme), ⟨source, rest, none, recovery⟩)) ∨
    ∃ error, Next text (.error error) ∧ (Cursor.mk source text none recovery).next.1 = .error error := by
  cases hd : text.dropWhile isSkipped with
  | nil => exact .inl ⟨.done hd, by simp [next, read, piece?, hd]⟩
  | cons c rest =>
    rcases classify_spec c rest with ⟨token, length, hc, hl, hr⟩ | ⟨length, hc, hl, hk, hp⟩ | ⟨hc, hn⟩
    · refine .inr (.inl ⟨_, _, .lexeme hd hl hr, ?_⟩)
      rw [drop_length_take]
      simp [next, read, piece?, Piece.behind, hd, hc]
    · refine .inr (.inr ⟨_, .malformed hd hl hk hp, ?_⟩)
      simp [next, read, piece?, hd, hc, Piece.error]
    · refine .inr (.inr ⟨_, .unexpected hd hn, ?_⟩)
      simp [next, read, piece?, hd, hc, Piece.error]

/-- From any text on, a cursor gives the lexemes of the text by maximal munch, and no others. -/
theorem gives_iff {recovery : Recovery} {source text : List Char} {lexemes : List Lexeme}
    {error : Option ParseError} :
    Gives ⟨source, text, none, recovery⟩ lexemes error ↔ Munch text lexemes error := by
  constructor
  · intro h
    generalize hc : Cursor.mk source text none recovery = cursor at h
    induction h generalizing text with
    | done hn =>
      subst hc
      rcases next_cases recovery source text with ⟨hnext, _⟩ | ⟨_, _, _, h⟩ | ⟨_, _, h⟩
      · exact .done hnext
      · rw [h] at hn; cases hn
      · rw [h] at hn; cases hn
    | failed hn =>
      subst hc
      rcases next_cases recovery source text with ⟨_, h⟩ | ⟨_, _, _, h⟩ | ⟨_, hnext, h⟩
      · rw [h] at hn; cases hn
      · rw [h] at hn; cases hn
      · rw [h] at hn
        cases hn
        exact .failed hnext
    | lexeme hn _ ih =>
      subst hc
      rcases next_cases recovery source text with ⟨_, h⟩ | ⟨_, _, hnext, h⟩ | ⟨_, _, h⟩
      · rw [h] at hn; cases hn
      · rw [h] at hn ih
        cases hn
        exact .lexeme hnext (ih rfl)
      · rw [h] at hn; cases hn
  · intro h
    induction h with
    | @done text hn =>
      rcases next_cases recovery source text with ⟨_, h⟩ | ⟨_, _, hnext, _⟩ | ⟨_, hnext, _⟩
      · exact .done h
      · cases hn.unique hnext
      · cases hn.unique hnext
    | @failed text error hn =>
      rcases next_cases recovery source text with ⟨hnext, _⟩ | ⟨_, _, hnext, _⟩ | ⟨_, hnext, h⟩
      · cases hn.unique hnext
      · cases hn.unique hnext
      · cases hn.unique hnext
        exact .failed h
    | @lexeme text _ _ _ _ hn _ ih =>
      rcases next_cases recovery source text with ⟨hnext, _⟩ | ⟨_, _, hnext, h⟩ | ⟨_, hnext, _⟩
      · cases hn.unique hnext
      · cases hn.unique hnext
        exact .lexeme (by rw [h]) (by rw [h]; exact ih)
      · cases hn.unique hnext

end Cursor

theorem exists_munch (text : List Char) : ∃ lexemes error, Munch text lexemes error := by
  rcases Cursor.next_cases .standard text text with ⟨hn, _⟩ | ⟨lexeme, rest, hn, _⟩ | ⟨error, hn, _⟩
  · exact ⟨[], none, .done hn⟩
  · obtain ⟨lexemes, error, h⟩ := exists_munch rest
    exact ⟨lexeme :: lexemes, error, .lexeme hn h⟩
  · exact ⟨[], some error, .failed hn⟩
termination_by text.length
decreasing_by exact hn.length_lt

section

variable {text rest : List Char} {lexeme : Lexeme} {lexemes : List Lexeme}
  {error : Option ParseError}

theorem Next.split (h : Next text (.ok (some (lexeme, rest)))) :
    lexeme.slice ≠ [] ∧ lexeme.start = lexeme.slice ++ rest ∧
      ∃ gap, (∀ c ∈ gap, isSkipped c = true) ∧ text = gap ++ lexeme.start := by
  cases h with
  | lexeme ha hl hr =>
    subst ha
    refine ⟨ne_nil_of_mem_pattern hl.mem, ?_, text.takeWhile isSkipped, ?_, ?_⟩
    · obtain ⟨rest, hr⟩ := hl.isPrefix
      rw [← hr, List.drop_left]
    · exact fun c hc => List.mem_takeWhile_imp hc
    · exact List.takeWhile_append_dropWhile.symm

theorem Munch.unique {others : List Lexeme} {fault : Option ParseError}
    (h : Munch text lexemes error) (ho : Munch text others fault) :
    others = lexemes ∧ fault = error := by
  induction h generalizing others with
  | done hn =>
    cases ho with
    | done => exact ⟨rfl, rfl⟩
    | failed hm | lexeme hm => cases hn.unique hm
  | failed hn =>
    cases ho with
    | failed hm =>
      cases hn.unique hm
      exact ⟨rfl, rfl⟩
    | done hm | lexeme hm => cases hn.unique hm
  | lexeme hn _ ih =>
    cases ho with
    | lexeme hm hl =>
      cases hn.unique hm
      obtain ⟨rfl, rfl⟩ := ih hl
      exact ⟨rfl, rfl⟩
    | done hm | failed hm => cases hn.unique hm

theorem Munch.placed (h : Munch text lexemes error) :
    ∀ lexeme ∈ lexemes, lexeme.slice ≠ [] ∧ lexeme.slice <+: lexeme.start ∧
      lexeme.start <:+ text := by
  induction h with
  | done | failed => exact nofun
  | @lexeme text rest lexeme lexemes error hn _ ih =>
    obtain ⟨hne, hstart, gap, -, htext⟩ := hn.split
    have hsuffix : lexeme.start <:+ text := htext ▸ List.suffix_append _ _
    intro found hm
    rcases List.mem_cons.mp hm with rfl | hm
    · exact ⟨hne, hstart ▸ List.prefix_append _ _, hsuffix⟩
    · obtain ⟨hfound, hpre, hrest⟩ := ih found hm
      refine ⟨hfound, hpre, hrest.trans (List.IsSuffix.trans ?_ hsuffix)⟩
      exact hstart ▸ List.suffix_append _ _

theorem Munch.ordered (h : Munch text lexemes error) :
    lexemes.Pairwise fun earlier later =>
      ∃ rest, earlier.start = earlier.slice ++ rest ∧ later.start <:+ rest := by
  induction h with
  | done | failed => exact .nil
  | @lexeme text rest lexeme lexemes error hn hm ih =>
    refine .cons (fun later hl => ⟨rest, hn.split.2.1, (hm.placed later hl).2.2⟩) ih

theorem Munch.skipped (h : Munch text lexemes error) :
    ∃ gaps rest, gaps.length = lexemes.length ∧
      (∀ gap ∈ gaps, ∀ c ∈ gap, isSkipped c = true) ∧
      text = (List.zipWith (fun gap lexeme => gap ++ lexeme.slice) gaps lexemes).flatten ++ rest ∧
      (error = none ↔ ∀ c ∈ rest, isSkipped c = true) := by
  induction h with
  | @done text hn =>
    refine ⟨[], text, rfl, nofun, rfl, iff_of_true rfl ?_⟩
    cases hn with
    | done hd => exact List.dropWhile_eq_nil_iff.mp hd
  | @failed text error hn =>
    refine ⟨[], text, rfl, nofun, rfl, iff_of_false nofun fun hs => ?_⟩
    have hd : text.dropWhile isSkipped = [] := List.dropWhile_eq_nil_iff.mpr hs
    cases hn with
    | unexpected hc =>
      rw [hd] at hc
      cases hc
    | malformed ha hl =>
      subst ha
      rw [hd] at hl
      exact ne_nil_of_mem_pattern hl.mem (List.prefix_nil.mp hl.isPrefix)
  | @lexeme text rest lexeme lexemes error hn _ ih =>
    obtain ⟨-, hstart, gap, hg, htext⟩ := hn.split
    obtain ⟨gaps, last, hlength, hgaps, hrest, he⟩ := ih
    refine ⟨gap :: gaps, last, by simp [hlength], List.forall_mem_cons.mpr ⟨hg, hgaps⟩, ?_, he⟩
    rw [htext, hstart, hrest, List.zipWith_cons_cons, List.flatten_cons]
    simp only [List.append_assoc]

theorem Munch.covers (h : Munch text lexemes error) : Covers text lexemes error where
  placed lexeme hm := (h.placed lexeme hm).2
  nonempty lexeme hm := by
    have := Lexeme.byteLength_pos (h.placed lexeme hm).1
    simp only [Lexeme.span]
    omega
  ordered := by
    refine h.ordered.imp_of_mem fun {earlier later} he hl => ?_
    rintro ⟨rest, hstart, before, hrest⟩
    obtain ⟨front, hfront⟩ := (h.placed earlier he).2.2
    rw [Lexeme.span, Lexeme.span, ← hfront, hstart, ← hrest]
    simp only [Lexeme.byteLength_append]
    omega
  skipped := h.skipped

end

namespace Cursor

/-- Taking lexemes from a cursor at the front of a text comes to an end or to an error. The lexemes
that are taken are those of the text by maximal munch, and they cover the text. -/
theorem gives_munch (recovery : Recovery) (text : List Char) :
    ∃ lexemes error, Covers text lexemes error ∧
      (∀ found fault, Munch text found fault ↔ found = lexemes ∧ fault = error) ∧
      ∀ found fault, Gives (start recovery text) found fault ↔ found = lexemes ∧ fault = error := by
  obtain ⟨lexemes, error, h⟩ := exists_munch text
  have hmunch (found : List Lexeme) (fault : Option ParseError) :
      Munch text found fault ↔ found = lexemes ∧ fault = error := by
    constructor
    · exact h.unique
    · rintro ⟨rfl, rfl⟩
      exact h
  exact ⟨lexemes, error, h.covers, hmunch, fun found fault => gives_iff.trans (hmunch found fault)⟩

end Cursor

end VectorFormula.Token

namespace VectorFormula.Tokens

open Token (Cursor Next)

theorem ofText_cases (text : List Char) :
    (Next text (.ok none) ∧ ofText text = .done) ∨
    (∃ lexeme rest, Next text (.ok (some (lexeme, rest))) ∧
      ofText text = .next lexeme (ofText rest)) ∨
    ∃ error, Next text (.error error) ∧ ofText text = .bad error := by
  have hc := Cursor.next_cases .standard text text
  cases hp : Token.piece? text with
  | none => exact .inl ⟨.done (Token.piece?_eq_none.mp hp), ofText_none hp⟩
  | some piece =>
    cases hr : piece.reading with
    | error fault =>
      have hn : Next text (.error (piece.error fault)) := by
        simpa [Cursor.next, Cursor.read, hp, hr] using hc
      exact .inr (.inr ⟨_, hn, ofText_error hp hr⟩)
    | ok token =>
      have hn : Next text (.ok (some (⟨token, piece.slice, piece.start⟩, piece.rest))) := by
        simpa [Cursor.next, Cursor.read, hp, hr, Token.behind_of_ok hr] using hc
      exact .inr (.inl ⟨_, _, hn, ofText_ok hp hr⟩)

theorem exists_next_of_spells {token : Token} {tokens : List Token} {text : List Char}
    {rest : Tokens} (h : Spells (token :: tokens) (ofText text) rest) :
    ∃ lexeme left, Next text (.ok (some (lexeme, left))) ∧ lexeme.token = token ∧
      Spells tokens (ofText left) rest := by
  obtain ⟨lexeme, middle, ha, ht, hs⟩ := spells_cons.mp h
  rcases ofText_cases text with ⟨-, he⟩ | ⟨found, left, hn, he⟩ | ⟨error, -, he⟩
  · cases ha.symm.trans he
  · cases ha.symm.trans he
    exact ⟨lexeme, left, hn, ht, hs⟩
  · cases ha.symm.trans he

theorem exists_reads {token : Token} {tokens : List Token} {text : List Char} {rest : Tokens}
    (h : Spells tokens (ofText text) rest) (ht : token ∈ tokens) :
    ∃ slice, Token.Reads slice token := by
  induction tokens generalizing text with
  | nil => cases ht
  | cons first others ih =>
    obtain ⟨lexeme, left, hn, rfl, hs⟩ := exists_next_of_spells h
    rcases List.mem_cons.mp ht with rfl | ht
    · cases hn with
      | lexeme _ _ hr => exact ⟨_, hr⟩
    · exact ih hs ht

end VectorFormula.Tokens
