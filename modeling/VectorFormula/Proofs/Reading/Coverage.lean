import VectorFormula.Proofs.Compilation
import VectorFormula.Proofs.Token.Munch
/-!
What a compiled source is made of. Its lexemes are taken without an error and cover it, unless it
is blank (`compile_covered`).
-/
namespace VectorFormula

namespace Token

open Cursor (Gives)

theorem Cursor.gives_scan (recovery : Recovery) (source text : List Char) :
    Gives ⟨source, text, none, recovery⟩ (takeAll.scan recovery source text).1
      (takeAll.scan recovery source text).2.1 := by
  cases hp : piece? text with
  | none =>
    rw [scan_none hp]
    exact .done (by simp [next, read, hp])
  | some piece =>
    cases hr : piece.reading with
    | error fault =>
      rw [scan_error hp hr]
      exact .failed (by simp [next, read, hp, hr])
    | ok token =>
      rw [scan_ok hp hr]
      have hnext : (Cursor.mk source text none recovery).next =
          (.ok (some ⟨token, piece.slice, piece.start⟩), ⟨source, piece.rest, none, recovery⟩) := by
        simp [next, read, hp, hr, behind_of_ok hr]
      apply Gives.lexeme (by rw [hnext])
      rw [hnext]
      exact gives_scan recovery source piece.rest
termination_by text.length
decreasing_by exact piece?_rest_lt hp

variable {text : List Char}

theorem ofText?_eq_some_iff_gives (recovery : Recovery) {tokens : List Token} :
    ofText? text = some tokens ↔
      ∃ lexemes, Gives (.start recovery text) lexemes none ∧ lexemes.map (·.token) = tokens := by
  have hscan := Cursor.gives_scan .standard text text
  rw [ofText?_eq_some_iff_scan]
  constructor
  · rintro ⟨he, ht⟩
    rw [he] at hscan
    exact ⟨_, Cursor.gives_iff.mpr (Cursor.gives_iff.mp hscan), ht⟩
  · rintro ⟨lexemes, hg, ht⟩
    have hsame := (Cursor.gives_iff.mp hg).unique (Cursor.gives_iff.mp hscan)
    exact ⟨hsame.2, by rw [hsame.1, ht]⟩

theorem exists_gives_of_isAllBlank (recovery : Recovery) (hb : Text.isAllBlank text = true) :
    (∃ lexemes, Gives (.start recovery text) lexemes none) ↔ ∀ c ∈ text, isSkipped c = true := by
  constructor
  · rintro ⟨lexemes, hg⟩
    have ht := eq_nil_of_isAllBlank hb ((ofText?_eq_some_iff_gives recovery).mpr ⟨lexemes, hg, rfl⟩)
    obtain rfl := List.map_eq_nil_iff.mp ht
    obtain ⟨gaps, rest, hl, -, htext, he⟩ := (Cursor.gives_iff.mp hg).skipped
    have hrest : text = rest := by simpa using htext
    exact hrest ▸ he.mp rfl
  · intro hs
    have hd : text.dropWhile isSkipped = [] := List.dropWhile_eq_nil_iff.mpr hs
    exact ⟨[], .done (by simp [Cursor.next, Cursor.read, Cursor.start, piece?, hd])⟩

end Token

namespace Expression

open Token (Cursor Covers)

/-- A source that compiles and is not blank is read to its end without an error, and its lexemes
cover it: what stands between them, and after the last, is skipped. A blank source always compiles, to
the value zero, and is read without an error just if nothing but skipped characters is in it. -/
theorem compile_covered (registry : Registry) (recovery : Token.Recovery) (source : String) :
    (Text.isAllBlank source.toList = false →
      ∀ program, compile registry source = .ok program → ∃ lexemes,
        Cursor.Gives (.start recovery source.toList) lexemes none ∧
          Covers source.toList lexemes none) ∧
    (Text.isAllBlank source.toList = true →
      compile registry source = .ok [.push (.scalar 0.0)] ∧
        ((∃ lexemes, Cursor.Gives (.start recovery source.toList) lexemes none) ↔
          ∀ c ∈ source.toList, Token.isSkipped c = true)) := by
  constructor
  · intro hb program h
    obtain ⟨term, hs, -, -⟩ := (compile_eq_ok hb).mp h
    obtain ⟨lexemes, hg, -⟩ := (Token.ofText?_eq_some_iff_gives recovery).mp hs.tokens
    exact ⟨lexemes, hg, (Cursor.gives_iff.mp hg).covers⟩
  · exact fun hb => ⟨if_pos hb, Token.exists_gives_of_isAllBlank recovery hb⟩

/-- A list with blanks around its items is covered by its lexemes, and a no-break space compiles
though no cursor passes over it. -/
theorem compile_covered_list :
    (∃ lexemes, Cursor.Gives (.ofText "[ x,\ty ]".toList) lexemes none ∧
      Covers "[ x,\ty ]".toList lexemes none) ∧
    compile .builtin "\u00a0" = .ok [.push (.scalar 0.0)] ∧
      ¬∃ lexemes, Cursor.Gives (.ofText "\u00a0".toList) lexemes none := by
  have hs : Term.StandsFor .builtin "[ x,\ty ]" (.vector [.named ["x"], .named ["y"]]) := by
    refine ⟨Token.ofText?_eq_some.mpr (by cbv), .vector ?_, .vector ?_⟩ <;>
      simp [Term.WellGrouped.named, Term.Over.named]
  have hc := (compile_eq_ok hs.not_blank).mpr ⟨_, hs, by cbv, rfl⟩
  obtain ⟨hblank, hread⟩ := (compile_covered .builtin .standard "\u00a0").2 rfl
  refine ⟨(compile_covered .builtin .standard "[ x,\ty ]").1 hs.not_blank _ hc, hblank, ?_⟩
  intro hg
  exact absurd (hread.mp hg '\u00a0' (by simp)) (by decide)

/-- A no-break space is blank, so it compiles, but no cursor passes over it. -/
theorem compile_blank_unread :
    ¬ ∀ (registry : Registry) (source : String) (program : Program),
      compile registry source = .ok program →
        ∃ lexemes, Cursor.Gives (.ofText source.toList) lexemes none := by
  intro hall
  have hb : Text.isAllBlank "\u00a0".toList = true := rfl
  obtain ⟨lexemes, hg⟩ := hall .builtin "\u00a0" blank (if_pos hb)
  have hskipped := (Token.exists_gives_of_isAllBlank .standard hb).mp ⟨lexemes, hg⟩
  exact absurd (hskipped '\u00a0' (by simp)) (by decide)

end Expression

end VectorFormula
