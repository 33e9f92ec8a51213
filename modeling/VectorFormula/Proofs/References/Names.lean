import VectorFormula.Proofs.Sites
import VectorFormula.Proofs.Token.Munch
import VectorFormula.Scope.Unknowns
/-!
The dotted names in a compiled program stand in its source, so all of them have parts.
-/
namespace VectorFormula

theorem Token.Reads.path_ne_nil {slice : List Char} {path : Path}
    (h : Token.Reads slice (.identifier path)) : path ≠ [] := by
  cases h with
  | path _ =>
    intro hn
    exact slice.splitOn_ne_nil '.' (List.map_eq_nil_iff.mp hn)
  | quotation _ _ => exact List.cons_ne_nil _ _

namespace Expression

theorem Compiled.path_ne_nil {expression : Expression} (h : expression.Compiled) {path : Path}
    (hp : path ∈ expression.program.paths) : path ≠ [] := by
  have hload := Program.mem_paths.mp hp
  rcases h.exists_term with hb | ⟨registry, source, term, hs, ht⟩
  · rw [hb] at hload
    simp [blank] at hload
  · rw [← ht, ← term.program_sites] at hload
    obtain ⟨site, hsite, hi⟩ := List.mem_map.mp hload
    have ho := hs.resolved.sites (List.Subset.refl _) site hsite
    cases ho with
    | named hm =>
      cases hi
      obtain ⟨slice, hr⟩ := Tokens.exists_reads (Token.ofText?_eq_some.mp hs.tokens) hm
      exact hr.path_ne_nil
    | _ => cases hi

end Expression

end VectorFormula
