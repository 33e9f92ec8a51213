import VectorFormula.Proofs.Compilation
import VectorFormula.Term.Grouping
/-!
The instructions of a term one by one, each with the name under which the function that it calls
is looked up (`program_sites`).
-/
namespace VectorFormula

/-- An instruction of a program, and the name under which its function is looked up, if it calls
one. -/
structure Site where
  callee : Option String
  instruction : Instruction

namespace Term

mutual

def sites : Term → List Site
  | number value => [⟨none, .push (.scalar value)⟩]
  | named path => [⟨none, .load path⟩]
  | group inner => inner.sites
  | apply path function operands =>
    sitesOf operands ++ [⟨some path.text, .call path.text function operands.length⟩]
  | vector items => sitesOf items ++ [⟨none, .vector items.length⟩]
  | unary operator function operand =>
    operand.sites ++ [⟨operator.functionName?, .call operator.symbol function 1⟩]
  | binary operator function left right =>
    left.sites ++ right.sites ++ [⟨operator.functionName?, .call operator.symbol function 2⟩]
  | conditional function condition yes no =>
    condition.sites ++ yes.sites ++ no.sites ++
      [⟨Operator.ternary.functionName?, .call Operator.ternary.symbol function 3⟩]
  | index target items =>
    if (listBounds? items).isSome then
      target.sites ++ (sitesOf items).dropLast ++ [⟨none, .indexRange⟩]
    else target.sites ++ sitesOf items ++ [⟨none, .index items.length⟩]

def sitesOf : List Term → List Site
  | [] => []
  | term :: rest => term.sites ++ sitesOf rest

end

/-- Taking the bounds out of an item leaves out the call that makes a sequence of them. -/
theorem program_of_index (target : Term) (items : List Term) :
    (index target items).program =
      if (listBounds? items).isSome then
        target.program ++ (programs items).dropLast ++ [.indexRange]
      else target.program ++ programs items ++ [.index items.length] := by
  rw [program]
  cases hb : listBounds? items with
  | none => rfl
  | some bounds =>
    obtain ⟨item, rfl, hi⟩ := listBounds?_eq_some hb
    obtain ⟨function, hp⟩ := program_of_bounds? hi
    simp [programs, hp]

private theorem programs_sites {terms : List Term}
    (h : ∀ term ∈ terms, term.sites.map Site.instruction = term.program) :
    (sitesOf terms).map Site.instruction = programs terms := by
  induction terms with
  | nil => rfl
  | cons term rest ih =>
    obtain ⟨ht, hr⟩ := List.forall_mem_cons.mp h
    rw [sitesOf, programs, List.map_append, ht, ih hr]

theorem program_sites (term : Term) : term.sites.map Site.instruction = term.program := by
  induction term with
  | number value => rfl
  | named path => rfl
  | group inner ih => exact ih
  | apply path function operands ih => simp [sites, program, programs_sites ih]
  | vector items ih => simp [sites, program, programs_sites ih]
  | unary operator function operand ih => simp [sites, program, ih]
  | binary operator function left right ihl ihr => simp [sites, program, ihl, ihr]
  | conditional function condition yes no ihc ihy ihn => simp [sites, program, ihc, ihy, ihn]
  | index target items iht ihi =>
    rw [program_of_index, sites]
    split <;> simp [iht, List.map_dropLast, programs_sites ihi]

end Term

inductive Operator.Takes : Operator → Nat → Prop
  | sign {operator : Operator} : operator.isSign = true → Takes operator 1
  | binary {operator : Operator} : operator.isBinary = true → Takes operator 2
  | ternary : Takes .ternary 3

/-- Whether an instruction stands for one of the tokens, or calls the function that the registry has
under the name of the site: for a name as it is written, or for an operator. -/
inductive Site.Over (registry : Registry) (tokens : List Token) : Site → Prop
  | number {value : Float} :
    .number value ∈ tokens → Over registry tokens ⟨none, .push (.scalar value)⟩
  | named {path : Path} : .identifier path ∈ tokens → Over registry tokens ⟨none, .load path⟩
  | apply {path : Path} {function : Function} {arity : Nat} :
    registry.lookup path.text arity = .ok function →
    Over registry tokens ⟨some path.text, .call path.text function arity⟩
  | operator {operator : Operator} {function : Function} {arity : Nat} :
    operator.Takes arity → registry.lookupOperator operator arity = .ok function →
    Over registry tokens ⟨operator.functionName?, .call operator.symbol function arity⟩
  | vector (count : Nat) : Over registry tokens ⟨none, .vector count⟩
  | index (count : Nat) : Over registry tokens ⟨none, .index count⟩
  | indexRange : Over registry tokens ⟨none, .indexRange⟩

namespace Term

theorem mem_sitesOf {site : Site} {terms : List Term} :
    site ∈ sitesOf terms ↔ ∃ term ∈ terms, site ∈ term.sites := by
  induction terms with
  | nil => simp [sitesOf]
  | cons term rest ih => simp [sitesOf, ih]

theorem tokens_subset_listTokens {term : Term} {terms : List Term} (h : term ∈ terms) :
    term.tokens ⊆ listTokens terms := by
  induction terms with
  | nil => cases h
  | cons first rest ih =>
    rw [listTokens]
    rcases List.mem_cons.mp h with rfl | h
    · exact List.subset_append_left _ _
    · rw [moreTokens_eq (List.ne_nil_of_mem h)]
      exact List.subset_append_of_subset_right _ (List.subset_cons_of_subset _ (ih h))

variable {registry : Registry} {all : List Token}

private theorem sitesOf_over {terms : List Term}
    (h : ∀ term ∈ terms, term.tokens ⊆ all → ∀ site ∈ term.sites, site.Over registry all)
    (hs : listTokens terms ⊆ all) : ∀ site ∈ sitesOf terms, site.Over registry all := by
  intro site hm
  obtain ⟨term, ht, hm⟩ := mem_sitesOf.mp hm
  exact h term ht (List.Subset.trans (tokens_subset_listTokens ht) hs) site hm

theorem Over.sites {term : Term} (h : term.Over registry) (hs : term.tokens ⊆ all) :
    ∀ site ∈ term.sites, site.Over registry all := by
  induction h with
  | number value => exact List.forall_mem_singleton.mpr (.number (hs (List.mem_singleton_self _)))
  | named path => exact List.forall_mem_singleton.mpr (.named (hs (List.mem_singleton_self _)))
  | group _ ih =>
    simp only [tokens, List.cons_subset, List.append_subset] at hs
    exact ih hs.2.1
  | apply hl _ ih =>
    simp only [tokens, List.cons_subset, List.append_subset] at hs
    exact List.forall_mem_append.mpr
      ⟨sitesOf_over ih hs.2.2.1, List.forall_mem_singleton.mpr (.apply hl)⟩
  | vector _ ih =>
    simp only [tokens, List.cons_subset, List.append_subset] at hs
    exact List.forall_mem_append.mpr
      ⟨sitesOf_over ih hs.2.1, List.forall_mem_singleton.mpr (.vector _)⟩
  | unary hsign hl _ ih =>
    simp only [tokens, List.cons_subset] at hs
    exact List.forall_mem_append.mpr
      ⟨ih hs.2, List.forall_mem_singleton.mpr (.operator (.sign hsign) hl)⟩
  | binary hb hl _ _ ihl ihr =>
    simp only [tokens, List.cons_subset, List.append_subset] at hs
    refine List.forall_mem_append.mpr
      ⟨List.forall_mem_append.mpr ⟨ihl hs.1, ihr hs.2.2⟩,
        List.forall_mem_singleton.mpr (.operator (.binary hb) hl)⟩
  | conditional hl _ _ _ ihc ihy ihn =>
    simp only [tokens, List.cons_subset, List.append_subset] at hs
    obtain ⟨hc, -, hy, -, hn⟩ := hs
    exact List.forall_mem_append.mpr
      ⟨List.forall_mem_append.mpr ⟨List.forall_mem_append.mpr ⟨ihc hc, ihy hy⟩, ihn hn⟩,
        List.forall_mem_singleton.mpr (.operator .ternary hl)⟩
  | index _ _ iht ihi =>
    simp only [tokens, List.cons_subset, List.append_subset] at hs
    have hi := sitesOf_over ihi hs.2.2.1
    rw [Term.sites]
    split
    · exact List.forall_mem_append.mpr
        ⟨List.forall_mem_append.mpr ⟨iht hs.1, fun site hm => hi site (List.dropLast_subset _ hm)⟩,
          List.forall_mem_singleton.mpr .indexRange⟩
    · exact List.forall_mem_append.mpr
        ⟨List.forall_mem_append.mpr ⟨iht hs.1, hi⟩, List.forall_mem_singleton.mpr (.index _)⟩

end Term

namespace Expression

/-- The sites of a source: those of the term that it spells, or that of the zero of a blank one. -/
inductive HasSites (registry : Registry) (source : String) : List Site → Prop
  | blank : Text.isAllBlank source.toList = true →
    HasSites registry source [⟨none, .push (.scalar 0.0)⟩]
  | term {term : Term} : term.StandsFor registry source → HasSites registry source term.sites

theorem exists_hasSites {registry : Registry} {source : String} {program : Program}
    (h : compile registry source = .ok program) :
    ∃ sites, HasSites registry source sites ∧ sites.map Site.instruction = program := by
  rcases exists_term_of_compile h with ⟨hb, rfl⟩ | ⟨term, hs, -, rfl⟩
  · exact ⟨_, .blank hb, rfl⟩
  · exact ⟨_, .term hs, term.program_sites⟩

end Expression

end VectorFormula
