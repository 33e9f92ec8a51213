import Mathlib
import VectorFormula.Grammar
import VectorFormula.Proofs.Grammar.Regrouping
import VectorFormula.Proofs.Reading.Soundness
/-!
Derivations in the grammar are terms, however they group, if the registry has functions for all
operators.
-/
namespace VectorFormula

open Grammar

namespace Registry

def Resolves (registry : Registry) (call : Call) : Prop :=
  ∃ function, registry.lookup call.1.text call.2 = .ok function

/-- Whether a registry has functions for all operators. -/
structure HasOperators (registry : Registry) : Prop where
  sign : ∀ operator : Operator, operator.isSign = true →
    ∃ function, registry.lookupOperator operator 1 = .ok function
  binary : ∀ operator : Operator, operator.isBinary = true →
    ∃ function, registry.lookupOperator operator 2 = .ok function
  ternary : ∃ function, registry.lookupOperator .ternary 3 = .ok function

theorem builtin_hasOperators : builtin.HasOperators := by
  constructor
  · intro operator h
    cases operator <;> first | exact ⟨_, rfl⟩ | cases h
  · intro operator h
    cases operator <;> first | exact ⟨_, rfl⟩ | cases h
  · exact ⟨_, rfl⟩

end Registry

namespace Term

variable {registry : Registry}

private theorem sentence_signed {operator : Operator} (h : operator.isSign = true)
    {tokens : List Token} {calls : List Call} (hs : Sentence tokens calls) :
    Sentence (.operator operator.written :: tokens) calls := by
  refine .signed ?_ hs
  cases operator <;> first | decide | cases h

private theorem exists_parts {terms : List Term}
    (h : ∀ term ∈ terms, ∃ calls, Sentence term.tokens calls ∧
      ∀ call ∈ calls, registry.Resolves call) :
    ∃ parts : List (List Token × List Call), parts.length = terms.length ∧
      separated (parts.map (·.1)) = listTokens terms ∧ (∀ part ∈ parts, Sentence part.1 part.2) ∧
      ∀ call ∈ parts.flatMap (·.2), registry.Resolves call := by
  have hone : ∀ term ∈ terms, ∃ part : List Token × List Call, part.1 = term.tokens ∧
      Sentence part.1 part.2 ∧ ∀ call ∈ part.2, registry.Resolves call := by
    intro term hm
    obtain ⟨calls, hs, hr⟩ := h term hm
    exact ⟨(term.tokens, calls), rfl, hs, hr⟩
  obtain ⟨parts, ht, hp⟩ := exists_map_eq hone
  have hn : parts.length = terms.length := by simpa using congrArg List.length ht
  refine ⟨parts, hn, by rw [listTokens_eq, ← ht, separated], fun part hm => (hp part hm).1, ?_⟩
  intro call hc
  obtain ⟨part, hm, hc⟩ := List.mem_flatMap.mp hc
  exact (hp part hm).2 call hc

theorem exists_sentence {term : Term} (h : term.Over registry) :
    ∃ calls, Sentence term.tokens calls ∧ ∀ call ∈ calls, registry.Resolves call := by
  induction h with
  | number value => exact ⟨[], .number value, nofun⟩
  | named path => exact ⟨[], .named path, nofun⟩
  | group _ ih =>
    obtain ⟨calls, hs, hr⟩ := ih
    exact ⟨calls, .group hs, hr⟩
  | @apply path function operands hl _ ih =>
    obtain ⟨parts, hn, ht, hs, hr⟩ := exists_parts ih
    have hcall : registry.Resolves (path, parts.length) := ⟨function, hn ▸ hl⟩
    refine ⟨_, ?_, List.forall_mem_append.mpr ⟨hr, List.forall_mem_singleton.mpr hcall⟩⟩
    rw [Term.tokens, ← ht]
    exact .apply hs
  | vector _ ih =>
    obtain ⟨parts, -, ht, hs, hr⟩ := exists_parts ih
    exact ⟨_, by rw [Term.tokens, ← ht]; exact .vector hs, hr⟩
  | unary hsign _ _ ih =>
    obtain ⟨calls, hs, hr⟩ := ih
    exact ⟨calls, sentence_signed hsign hs, hr⟩
  | binary hb _ _ _ ihl ihr =>
    obtain ⟨first, hs, hr⟩ := ihl
    obtain ⟨second, hs', hr'⟩ := ihr
    exact ⟨_, .binary hb hs hs', List.forall_mem_append.mpr ⟨hr, hr'⟩⟩
  | conditional _ _ _ _ ihc ihy ihn =>
    obtain ⟨first, hs, hr⟩ := ihc
    obtain ⟨second, hs', hr'⟩ := ihy
    obtain ⟨third, hs'', hr''⟩ := ihn
    exact ⟨_, .conditional hs hs' hs'',
      List.forall_mem_append.mpr ⟨hr, List.forall_mem_append.mpr ⟨hr', hr''⟩⟩⟩
  | index _ _ iht ihi =>
    obtain ⟨calls, hs, hr⟩ := iht
    obtain ⟨parts, -, ht, hp, hr'⟩ := exists_parts ihi
    exact ⟨_, by rw [Term.tokens, ← ht]; exact .index hs hp, List.forall_mem_append.mpr ⟨hr, hr'⟩⟩

private theorem exists_terms {parts : List (List Token × List Call)}
    (h : ∀ part ∈ parts, (∀ call ∈ part.2, registry.Resolves call) →
      ∃ term : Term, term.Over registry ∧ term.tokens = part.1)
    (hr : ∀ call ∈ parts.flatMap (·.2), registry.Resolves call) :
    ∃ terms : List Term, terms.length = parts.length ∧
      listTokens terms = separated (parts.map (·.1)) ∧ ∀ term ∈ terms, term.Over registry := by
  have hone : ∀ part ∈ parts, ∃ term : Term, term.tokens = part.1 ∧ term.Over registry := by
    intro part hm
    obtain ⟨term, ho, ht⟩ := h part hm fun call hc => hr call (List.mem_flatMap.mpr ⟨part, hm, hc⟩)
    exact ⟨term, ht, ho⟩
  obtain ⟨terms, ht, ho⟩ := exists_map_eq hone
  have hn : terms.length = parts.length := by simpa using congrArg List.length ht
  exact ⟨terms, hn, by rw [listTokens_eq, ht, separated], ho⟩

theorem exists_over (ho : registry.HasOperators) {tokens : List Token} {calls : List Call}
    (h : Sentence tokens calls) (hr : ∀ call ∈ calls, registry.Resolves call) :
    ∃ term : Term, term.Over registry ∧ term.tokens = tokens := by
  induction h with
  | number value => exact ⟨_, .number value, rfl⟩
  | named path => exact ⟨_, .named path, rfl⟩
  | group _ ih =>
    obtain ⟨term, hover, rfl⟩ := ih hr
    exact ⟨_, .group hover, rfl⟩
  | @apply path parts _ ih =>
    obtain ⟨hr, hc⟩ := List.forall_mem_append.mp hr
    obtain ⟨operands, hn, ht, hover⟩ := exists_terms ih hr
    obtain ⟨function, hl⟩ := hc _ (List.mem_singleton_self _)
    exact ⟨_, .apply (hn ▸ hl) hover, by rw [Term.tokens, ht]⟩
  | vector _ ih =>
    obtain ⟨items, -, ht, hover⟩ := exists_terms ih hr
    exact ⟨_, .vector hover, by rw [Term.tokens, ht]⟩
  | @signed sign _ _ hsign _ ih =>
    obtain ⟨term, hover, rfl⟩ := ih hr
    obtain ⟨operator, hp⟩ : ∃ operator, sign.asPrefix? = some operator := by
      simp only [List.mem_cons, List.not_mem_nil, or_false] at hsign
      rcases hsign with rfl | rfl | rfl | rfl <;> exact ⟨_, rfl⟩
    -- The tree has the sign itself, the sentence the token that spells it.
    obtain ⟨hs, hw⟩ := written_of_asPrefix? hp
    obtain ⟨function, hl⟩ := ho.sign operator hs
    exact ⟨_, .unary hs hl hover, by rw [Term.tokens, hw]⟩
  | @binary operator _ _ _ _ hb _ _ ihl ihr =>
    obtain ⟨hr1, hr2⟩ := List.forall_mem_append.mp hr
    obtain ⟨left, hl, rfl⟩ := ihl hr1
    obtain ⟨right, hright, rfl⟩ := ihr hr2
    obtain ⟨function, hf⟩ := ho.binary operator hb
    exact ⟨_, .binary hb hf hl hright, rfl⟩
  | conditional _ _ _ ihc ihy ihn =>
    obtain ⟨hr1, hr⟩ := List.forall_mem_append.mp hr
    obtain ⟨hr2, hr3⟩ := List.forall_mem_append.mp hr
    obtain ⟨condition, hc, rfl⟩ := ihc hr1
    obtain ⟨yes, hy, rfl⟩ := ihy hr2
    obtain ⟨no, hn, rfl⟩ := ihn hr3
    obtain ⟨function, hf⟩ := ho.ternary
    exact ⟨_, .conditional hf hc hy hn, rfl⟩
  | index _ _ iht ihi =>
    obtain ⟨hr1, hr2⟩ := List.forall_mem_append.mp hr
    obtain ⟨target, hover, rfl⟩ := iht hr1
    obtain ⟨items, -, ht, hitems⟩ := exists_terms ihi hr2
    exact ⟨_, .index hover hitems, by rw [Term.tokens, ht]⟩

end Term

end VectorFormula
