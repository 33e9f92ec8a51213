import Mathlib
import VectorFormula.Text.Blank
import VectorFormula.Token.Cursor
import VectorFormula.Token.Stream
/-!
The tokens that a cursor takes are those that a parser meets. A text of nothing but blanks has none.
-/
namespace VectorFormula.Token

private theorem scan_spells (recovery : Recovery) (source text : List Char) (tokens : List Token) :
    ((Cursor.takeAll.scan recovery source text).2.1 = none ∧
      (Cursor.takeAll.scan recovery source text).1.map (·.token) = tokens) ↔
      Tokens.Spells tokens (Tokens.ofText text) .done := by
  -- The scan stops where the parser would: at the end of the text or at the first faulty piece.
  cases hp : piece? text with
  | none =>
    rw [Cursor.scan_none hp, Tokens.ofText_none hp]
    cases tokens <;> simp [Tokens.Spells]
  | some piece =>
    cases hr : piece.reading with
    | error fault =>
      rw [Cursor.scan_error hp hr, Tokens.ofText_error hp hr]
      cases tokens <;> simp [Tokens.Spells]
    | ok token =>
      rw [Cursor.scan_ok hp hr, Tokens.ofText_ok hp hr]
      cases tokens with
      | nil => simp [Tokens.Spells]
      | cons first others =>
        have ih := scan_spells recovery source piece.rest others
        simp only [Tokens.Spells, ← ih, List.map_cons, List.cons.injEq]
        exact and_left_comm
termination_by text.length
decreasing_by exact piece?_rest_lt hp

theorem length_ofText (recovery : Recovery) (source text : List Char) :
    (Tokens.ofText text).length = (Cursor.takeAll.scan recovery source text).1.length := by
  cases hp : piece? text with
  | none =>
    rw [Cursor.scan_none hp, Tokens.ofText_none hp]
    rfl
  | some piece =>
    cases hr : piece.reading with
    | error fault =>
      rw [Cursor.scan_error hp hr, Tokens.ofText_error hp hr]
      rfl
    | ok token =>
      rw [Cursor.scan_ok hp hr, Tokens.ofText_ok hp hr]
      exact congrArg (· + 1) (length_ofText recovery source piece.rest)
termination_by text.length
decreasing_by exact piece?_rest_lt hp

theorem ofText?_eq_some_iff_scan {text : List Char} {tokens : List Token} :
    ofText? text = some tokens ↔ (Cursor.takeAll.scan .standard text text).2.1 = none ∧
      (Cursor.takeAll.scan .standard text text).1.map (·.token) = tokens := by
  simp only [ofText?, Cursor.takeAll, Cursor.ofText, Cursor.start]
  match Cursor.takeAll.scan .standard text text with
  | (lexemes, none, _) => simp
  | (_, some _, _) => simp

theorem ofText?_eq_some {text : List Char} {tokens : List Token} :
    ofText? text = some tokens ↔ Tokens.Spells tokens (Tokens.ofText text) .done := by
  rw [ofText?_eq_some_iff_scan, scan_spells .standard text text tokens]

private theorem toNat_of_isBlank {c : Char} (h : Text.isBlank c = true) :
    c.toNat ≤ 32 ∨ 127 ≤ c.toNat := by
  simp only [Text.isBlank, Bool.or_eq_true, Bool.and_eq_true, decide_eq_true_eq, beq_iff_eq] at h
  omega

private theorem operator?_invisible {c : Char} (h : c.toNat ≤ 32 ∨ 127 ≤ c.toNat)
    (rest : List Char) : operator? (c :: rest) = none := by
  have hne (d : Char) (hd : 32 < d.toNat ∧ d.toNat < 127) : c ≠ d := by
    rintro rfl
    omega
  unfold operator?
  -- Every case but the last starts with a character that is written out.
  split <;> first | rfl | (rename_i he; injection he with he; exact absurd he (hne _ (by decide)))

private theorem classify_invisible {c : Char} (h : c.toNat ≤ 32 ∨ 127 ≤ c.toNat)
    (rest : List Char) : (classify c (c :: rest)).1 = .error (.character c) := by
  have hdot : c ≠ '.' := by rintro rfl; revert h; decide
  have hbrace : c ≠ '\x7b' := by rintro rfl; revert h; decide
  have hdigit : c.isDigit = false := by
    have hrange : ¬ (48 ≤ c.toNat ∧ c.toNat ≤ 57) := by omega
    simpa [Char.isDigit, UInt32.le_iff_toNat_le] using hrange
  have hstart : isNameStart c = false := by
    have hunder : c ≠ '_' := by rintro rfl; revert h; decide
    have hupper : ¬ (65 ≤ c.toNat ∧ c.toNat ≤ 90) := by omega
    have hlower : ¬ (97 ≤ c.toNat ∧ c.toNat ≤ 122) := by omega
    have halpha : c.isAlpha = false := by
      simpa [Char.isAlpha, Char.isUpper, Char.isLower, UInt32.le_iff_toNat_le] using
        And.intro (not_and.mp hupper) (not_and.mp hlower)
    simp [isNameStart, halpha, hunder]
  have hm : mantissaLength (c :: rest) = 0 := by
    unfold mantissaLength
    split <;> simp_all
  have hn : numberLength (c :: rest) = 0 := by simp [numberLength, hm]
  have hp : pathLength (c :: rest) = 0 := by simp [pathLength, hstart]
  have hq : quotationLength (c :: rest) = 0 := by
    unfold quotationLength
    split <;> simp_all
  simp [classify, hn, hp, hq, operator?_invisible h]

theorem eq_nil_of_isAllBlank {text : List Char} (hb : Text.isAllBlank text = true)
    {tokens : List Token} (h : ofText? text = some tokens) : tokens = [] := by
  rw [ofText?_eq_some] at h
  cases tokens with
  | nil => rfl
  | cons token others =>
    cases hd : text.dropWhile isSkipped with
    | nil =>
      rw [Tokens.ofText_none (by simp [piece?, hd])] at h
      exact h.elim
    | cons c rest =>
      have hc : Text.isBlank c = true :=
        List.all_eq_true.mp hb c ((List.dropWhile_suffix _).subset (hd ▸ List.mem_cons_self))
      obtain ⟨piece, hp, hr⟩ : ∃ piece, piece? text = some piece ∧
          piece.reading = .error (.character c) :=
        ⟨_, by simp only [piece?, hd]; rfl, classify_invisible (toNat_of_isBlank hc) rest⟩
      rw [Tokens.ofText_error hp hr] at h
      exact h.elim

end VectorFormula.Token
