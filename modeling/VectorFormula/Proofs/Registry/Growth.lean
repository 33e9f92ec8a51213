import VectorFormula.Proofs.Compilation
import VectorFormula.Proofs.Registry.History
import VectorFormula.Proofs.Sites
/-!
Growing registries. A function registered where its name has none of its arity leaves what
compiles as it is, but for calls that now find it (`parseWith_register`).
-/
namespace VectorFormula

namespace Term

variable (choose : Option String → Nat → Function → Function)

mutual

/-- A term with its functions chosen anew, given the name under which each is looked up and the number
of its operands. -/
def rebind : Term → Term
  | number value => number value
  | named path => named path
  | group inner => group inner.rebind
  | apply path function operands =>
    apply path (choose path.text operands.length function) (rebindAll operands)
  | vector items => vector (rebindAll items)
  | unary operator function operand =>
    unary operator (choose operator.functionName? 1 function) operand.rebind
  | binary operator function left right =>
    binary operator (choose operator.functionName? 2 function) left.rebind right.rebind
  | conditional function condition yes no =>
    conditional (choose Operator.ternary.functionName? 3 function) condition.rebind yes.rebind
      no.rebind
  | index target items => index target.rebind (rebindAll items)

def rebindAll : List Term → List Term
  | [] => []
  | term :: rest => term.rebind :: rebindAll rest

end

end Term

def Site.rebind (choose : Option String → Nat → Function → Function) : Site → Instruction
  | ⟨callee, .call name function arity⟩ => .call name (choose callee arity function) arity
  | ⟨_, instruction⟩ => instruction

namespace Term

variable {choose : Option String → Nat → Function → Function}

theorem rebindAll_eq (terms : List Term) : rebindAll choose terms = terms.map (rebind choose) := by
  induction terms with
  | nil => rfl
  | cons term rest ih => rw [rebindAll, ih, List.map_cons]

private theorem listTokens_rebind {terms : List Term}
    (h : ∀ term ∈ terms, (term.rebind choose).tokens = term.tokens) :
    listTokens (rebindAll choose terms) = listTokens terms := by
  rw [listTokens_eq, listTokens_eq, rebindAll_eq, List.map_map]
  exact congrArg _ (List.map_congr_left h)

theorem tokens_rebind (term : Term) : (term.rebind choose).tokens = term.tokens := by
  induction term with
  | number value => rfl
  | named path => rfl
  | group inner ih => simp [rebind, tokens, ih]
  | apply path function operands ih => simp [rebind, tokens, listTokens_rebind ih]
  | vector items ih => simp [rebind, tokens, listTokens_rebind ih]
  | unary operator function operand ih => simp [rebind, tokens, ih]
  | binary operator function left right ihl ihr => simp [rebind, tokens, ihl, ihr]
  | conditional function condition yes no ihc ihy ihn => simp [rebind, tokens, ihc, ihy, ihn]
  | index target items iht ihi => simp [rebind, tokens, iht, listTokens_rebind ihi]

private theorem listDepth_rebind {terms : List Term}
    (h : ∀ term ∈ terms, (term.rebind choose).depth = term.depth) :
    listDepth (rebindAll choose terms) = listDepth terms := by
  induction terms with
  | nil => rfl
  | cons term rest ih =>
    obtain ⟨ht, hr⟩ := List.forall_mem_cons.mp h
    rw [rebindAll, listDepth, listDepth, ht, ih hr]

theorem depth_rebind (term : Term) : (term.rebind choose).depth = term.depth := by
  induction term with
  | number value => rfl
  | named path => rfl
  | group inner ih => simp [rebind, depth, ih]
  | apply path function operands ih => simp [rebind, depth, listDepth_rebind ih]
  | vector items ih => simp [rebind, depth, listDepth_rebind ih]
  | unary operator function operand ih => simp [rebind, depth, ih]
  | binary operator function left right ihl ihr => simp [rebind, depth, ihl, ihr]
  | conditional function condition yes no ihc ihy ihn => simp [rebind, depth, ihc, ihy, ihn]
  | index target items iht ihi => simp [rebind, depth, iht, listDepth_rebind ihi]

theorem leftEdge_rebind (term : Term) : (term.rebind choose).leftEdge = term.leftEdge := by
  induction term with
  | binary operator function left right ihl => simp [rebind, leftEdge, ihl]
  | conditional function condition yes no ihc => simp [rebind, leftEdge, ihc]
  | index target items iht => simp [rebind, leftEdge, iht]
  | _ => rfl

theorem rightEdge_rebind (term : Term) : (term.rebind choose).rightEdge = term.rightEdge := by
  induction term with
  | unary operator function operand ih => simp [rebind, rightEdge, ih]
  | binary operator function left right _ ihr => simp [rebind, rightEdge, ihr]
  | conditional function condition yes no _ _ ihn => simp [rebind, rightEdge, ihn]
  | _ => rfl

private theorem forall_mem_rebindAll {fits : Term → Prop} {terms : List Term}
    (h : ∀ term ∈ terms, fits (term.rebind choose)) :
    ∀ term ∈ rebindAll choose terms, fits term := by
  rw [rebindAll_eq]
  exact List.forall_mem_map.mpr h

theorem WellGrouped.rebind {term : Term} (h : term.WellGrouped) :
    (term.rebind choose).WellGrouped := by
  induction h with
  | number value => exact .number value
  | named path => exact .named path
  | group _ ih => exact .group ih
  | apply _ ih => exact .apply (forall_mem_rebindAll ih)
  | vector _ ih => exact .vector (forall_mem_rebindAll ih)
  | unary _ hc ih => exact .unary ih (by rwa [leftEdge_rebind])
  | binary _ _ hl hr ihl ihr =>
    exact .binary ihl ihr (by rwa [rightEdge_rebind]) (by rwa [leftEdge_rebind])
  | conditional _ _ _ hc ihc ihy ihn => exact .conditional ihc ihy ihn (by rwa [rightEdge_rebind])
  | index _ _ hc iht ihi => exact .index iht (forall_mem_rebindAll ihi) (by rwa [rightEdge_rebind])

private theorem isSome_bounds?_rebind (term : Term) :
    (term.rebind choose).bounds?.isSome = term.bounds?.isSome := by
  induction term with
  | group inner ih => exact ih
  | apply path function operands =>
    match operands with
    | [start, stop] =>
      simp only [rebind, rebindAll, bounds?]
      split <;> rfl
    | [] | [_] | _ :: _ :: _ :: _ => rfl
  | binary operator function left right => cases operator <;> rfl
  | _ => rfl

private theorem isSome_listBounds?_rebind (terms : List Term) :
    (listBounds? (rebindAll choose terms)).isSome = (listBounds? terms).isSome := by
  match terms with
  | [term] => exact isSome_bounds?_rebind term
  | [] | _ :: _ :: _ => rfl

theorem length_rebindAll (terms : List Term) : (rebindAll choose terms).length = terms.length := by
  rw [rebindAll_eq, List.length_map]

private theorem programs_rebind {terms : List Term}
    (h : ∀ term ∈ terms, (term.rebind choose).program = term.sites.map (Site.rebind choose)) :
    programs (rebindAll choose terms) = (sitesOf terms).map (Site.rebind choose) := by
  induction terms with
  | nil => rfl
  | cons term rest ih =>
    obtain ⟨ht, hr⟩ := List.forall_mem_cons.mp h
    rw [rebindAll, programs, sitesOf, List.map_append, ht, ih hr]

theorem program_rebind (term : Term) :
    (term.rebind choose).program = term.sites.map (Site.rebind choose) := by
  induction term with
  | number value => rfl
  | named path => rfl
  | group inner ih => exact ih
  | apply path function operands ih =>
    simp [rebind, program, sites, Site.rebind, programs_rebind ih, length_rebindAll]
  | vector items ih =>
    simp [rebind, program, sites, Site.rebind, programs_rebind ih, length_rebindAll]
  | unary operator function operand ih => simp [rebind, program, sites, Site.rebind, ih]
  | binary operator function left right ihl ihr =>
    simp [rebind, program, sites, Site.rebind, ihl, ihr]
  | conditional function condition yes no ihc ihy ihn =>
    simp [rebind, program, sites, Site.rebind, ihc, ihy, ihn]
  | index target items iht ihi =>
    rw [rebind, program_of_index, sites, isSome_listBounds?_rebind, length_rebindAll, iht,
      programs_rebind ihi]
    split <;> simp [Site.rebind, List.map_dropLast]

end Term

namespace Registry

/-- Whether a registry has a function wherever another one has: the one chosen in its place. -/
def Follows (grown registry : Registry) (choose : Option String → Nat → Function → Function) :
    Prop :=
  ∀ name arity found, registry.lookup name arity = .ok found →
    grown.lookup name arity = .ok (choose name arity found)

variable {registry grown : Registry} {choose : Option String → Nat → Function → Function}

theorem Follows.operator (h : grown.Follows registry choose) {operator : Operator} {arity : Nat}
    {found : Function} (hl : registry.lookupOperator operator arity = .ok found) :
    grown.lookupOperator operator arity = .ok (choose operator.functionName? arity found) := by
  unfold lookupOperator at hl ⊢
  split at hl
  · rename_i hn
    simp only [hn]
    exact h _ arity found hl
  · cases hl

end Registry

namespace Term

variable {registry grown : Registry} {choose : Option String → Nat → Function → Function}
  {source : String}

theorem Over.rebind (h : grown.Follows registry choose) {term : Term} (ho : term.Over registry) :
    (term.rebind choose).Over grown := by
  induction ho with
  | number value => exact .number value
  | named path => exact .named path
  | group _ ih => exact .group ih
  | apply hl _ ih =>
    exact .apply (by rw [length_rebindAll]; exact h _ _ _ hl) (forall_mem_rebindAll ih)
  | vector _ ih => exact .vector (forall_mem_rebindAll ih)
  | unary hs hl _ ih => exact .unary hs (h.operator hl) ih
  | binary hb hl _ _ ihl ihr => exact .binary hb (h.operator hl) ihl ihr
  | conditional hl _ _ _ ihc ihy ihn => exact .conditional (h.operator hl) ihc ihy ihn
  | index _ _ iht ihi => exact .index iht (forall_mem_rebindAll ihi)

theorem StandsFor.rebind (h : grown.Follows registry choose) {term : Term}
    (hs : term.StandsFor registry source) : (term.rebind choose).StandsFor grown source :=
  ⟨by rw [tokens_rebind]; exact hs.tokens, hs.grouped.rebind, hs.resolved.rebind h⟩

end Term

namespace Registry

variable {registry : Registry} {name : String} {function : Function}

/-- The function of a call after another one is registered: the new one, if the call is to its name
with as many operands as it takes and so far used the function that takes any number. -/
def preferred (name : String) (function : Function) (callee : Option String) (arity : Nat)
    (found : Function) : Function :=
  if callee.map Text.lowercase = some (Text.lowercase name) ∧ function.arity = .exact arity ∧
    found.arity = .variadic then function else found

def Lacks (registry : Registry) (name : String) (arity : Arity) : Prop :=
  ∀ functions, registry.functions.get? (Text.lowercase name) = some functions →
    ∀ function ∈ functions, function.arity ≠ arity

private theorem select_enter {functions : List Function} {arity : Nat} {found : Function}
    (h : ∀ other ∈ functions, other.arity ≠ function.arity)
    (hs : select functions arity = some found) :
    select (enter functions function) arity =
      some (if function.arity = .exact arity ∧ found.arity = .variadic then function else found) := by
  simp only [select, Option.orElse_eq_orElse, Option.orElse_eq_or, find?_enter,
    Option.or_eq_some_iff] at hs ⊢
  rcases hs with hexact | ⟨hnone, hvariadic⟩
  · -- The new function does not take just as many operands, for this one does.
    have ha : found.arity = .exact arity := by simpa using List.find?_some hexact
    have hne := h found (List.mem_of_find?_eq_some hexact)
    left
    rw [if_neg (ha ▸ Ne.symm hne), if_neg (by simp [ha]), hexact]
  · have ha : found.arity = .variadic := by simpa using List.find?_some hvariadic
    have hne := h found (List.mem_of_find?_eq_some hvariadic)
    by_cases hf : function.arity = .exact arity
    · left
      rw [if_pos hf, if_pos ⟨hf, ha⟩]
    · right
      rw [if_neg hf, if_neg (ha ▸ Ne.symm hne), if_neg (by simp [hf])]
      exact ⟨hnone, hvariadic⟩

/-- Where its name has no function of its arity, a function that is registered hides none but that of
any number of operands. -/
theorem follows_register (h : registry.Lacks name function.arity) :
    (registry.register name function).Follows registry (preferred name function) := by
  intro callee arity found hl
  unfold lookup at hl ⊢
  rw [get?_register]
  split at hl
  · cases hl
  · rename_i functions hf
    split at hl
    · rename_i hs
      cases hl
      by_cases hk : Text.lowercase callee = Text.lowercase name
      · have hselect := select_enter (h functions (hk ▸ hf)) hs
        rw [hk] at hf
        simp [hk, hf, hselect, preferred]
      · simp [hk, hf, hs, preferred]
    · cases hl

end Registry

namespace Expression

variable {registry grown : Registry} {source : String} {sites : List Site}

theorem HasSites.lookup (h : HasSites registry source sites) {callee name : String}
    {function : Function} {arity : Nat} (hm : ⟨some callee, .call name function arity⟩ ∈ sites) :
    registry.lookup callee arity = .ok function := by
  cases h with
  | blank => simp at hm
  | term hs =>
    have ho := hs.resolved.sites (List.Subset.refl _) _ hm
    generalize hsite : (⟨some callee, .call name function arity⟩ : Site) = site at ho
    cases ho with
    | apply hl =>
      cases hsite
      exact hl
    | operator ht hl =>
      obtain ⟨hn, hi⟩ := Site.mk.inj hsite
      cases hi
      simpa only [Registry.lookupOperator, ← hn] using hl
    | _ => cases hsite

/-- Where another registry has a function in place of every one that is found, a source that compiles
compiles to the same instructions with these functions. -/
theorem compile_rebind {choose : Option String → Nat → Function → Function}
    (h : grown.Follows registry choose) {program : Program}
    (hc : compile registry source = .ok program) :
    ∃ sites, HasSites registry source sites ∧ sites.map Site.instruction = program ∧
      compile grown source = .ok (sites.map (Site.rebind choose)) := by
  rcases exists_term_of_compile hc with ⟨hb, rfl⟩ | ⟨term, hs, hd, rfl⟩
  · exact ⟨_, .blank hb, rfl, by rw [compile, hb]; rfl⟩
  · have hgrown : (term.rebind choose).depth < Emission.maxNesting := by rwa [Term.depth_rebind]
    exact ⟨term.sites, .term hs, term.program_sites, (compile_eq_ok hs.not_blank).mpr
      ⟨term.rebind choose, hs.rebind h, hgrown, term.program_rebind⟩⟩

/-- A function that is registered where its name has none of its arity changes no source that compiles
but by taking the calls that it fits better: those to its name, with as many operands as it takes, that
used the function of any number of operands. All other instructions stay as they are. -/
theorem parseWith_register (registry : Registry) (name : String) (function : Function)
    (h : registry.Lacks name function.arity) (source : String) (expression : Expression)
    (hp : parseWith registry source = .ok expression) :
    ∃ sites, HasSites registry source sites ∧ sites.map Site.instruction = expression.program ∧
      (∀ callee other found arity, ⟨some callee, .call other found arity⟩ ∈ sites →
        registry.lookup callee arity = .ok found) ∧
      parseWith (registry.register name function) source =
        .ok ⟨source, sites.map (Site.rebind (Registry.preferred name function))⟩ := by
  obtain ⟨-, hc⟩ := parseWith_eq_ok.mp hp
  obtain ⟨sites, hs, hprogram, hgrown⟩ := compile_rebind (Registry.follows_register h) hc
  exact ⟨sites, hs, hprogram, fun _ _ _ _ => hs.lookup, parseWith_eq_ok.mpr ⟨rfl, hgrown⟩⟩

/-- A sum of two operands takes the place of the sum of any number in an operator. A function under the
name of the operator's symbol stays, though its instruction looks the same. -/
theorem parseWith_register_operator :
    let registry := (Registry.empty.register "plus" (.variadic Function.sum)).register "+"
      (.variadic Function.product)
    let before : Program := [.load ["a"], .load ["b"], .load ["c"]]
    registry.Lacks "PLUS" (.exact 2) ∧
      parseWith registry "a + \x7b+\x7d(b, c)" = .ok ⟨"a + \x7b+\x7d(b, c)", before ++
        [.call "+" (.variadic Function.product) 2, .call "+" (.variadic Function.sum) 2]⟩ ∧
      parseWith (registry.register "PLUS" (.binary Function.plus)) "a + \x7b+\x7d(b, c)" =
        .ok ⟨"a + \x7b+\x7d(b, c)", before ++
          [.call "+" (.variadic Function.product) 2, .call "+" (.binary Function.plus) 2]⟩ := by
  intro registry before
  have hlacks : registry.Lacks "PLUS" (.exact 2) := by
    have hplus : registry.functions.get? (Text.lowercase "PLUS") = some [.variadic Function.sum] := by
      cbv
    intro functions hf other ho
    rw [hplus] at hf
    cases hf
    cases List.mem_singleton.mp ho
    decide
  have hs : Term.StandsFor registry "a + \x7b+\x7d(b, c)" (.binary .plus (.variadic Function.sum)
      (.named ["a"]) (.apply ["+"] (.variadic Function.product) [.named ["b"], .named ["c"]])) := by
    refine ⟨Token.ofText?_eq_some.mpr (by cbv), ?_, ?_⟩
    · refine .binary (.named _) (.apply ?_) ?_ ?_ <;>
        simp [Term.leftEdge, Term.rightEdge, Term.WellGrouped.named]
    · refine .binary rfl (by cbv) (.named _) (.apply (by cbv) ?_)
      simp [Term.Over.named]
  have hp : parseWith registry "a + \x7b+\x7d(b, c)" = .ok ⟨"a + \x7b+\x7d(b, c)", before ++
      [.call "+" (.variadic Function.product) 2, .call "+" (.variadic Function.sum) 2]⟩ :=
    parseWith_of_standsFor hs (by decide)
  obtain ⟨sites, hsites, -, -, hgrown⟩ :=
    parseWith_register registry "PLUS" (.binary Function.plus) hlacks _ _ hp
  refine ⟨hlacks, hp, hgrown.trans ?_⟩
  cases hsites with
  | blank hb => exact absurd hb (by decide)
  | term ho =>
    have hplus : Text.lowercase "plus" = "plus" := by cbv
    have hcapital : Text.lowercase "PLUS" = "plus" := by cbv
    have hsymbol : Text.lowercase "+" = "+" := by cbv
    have hpath : Path.text ["+"] = "+" := rfl
    rw [hs.unique ho]
    simp [before, Term.sites, Term.sitesOf, Site.rebind, Registry.preferred, Operator.functionName?,
      Operator.symbol, Function.arity, hplus, hcapital, hsymbol, hpath]

end Expression

end VectorFormula
