import VectorFormula.Term.Grouping
/-!
Regrouping: however a term groups, there is a well-grouped one of the same tokens (`regroup`).
What follows an operand moves down its right edge until nothing there captures it, and what
precedes an operand moves down its left edge.
-/
namespace VectorFormula.Term

/-- A well-grouped term over a registry with given tokens. -/
structure Groups (registry : Registry) (tokens : List Token) (term : Term) : Prop where
  grouped : term.WellGrouped
  resolved : term.Over registry
  tokens : term.tokens = tokens

/-- Whether terms are made of a left operand, by an operator after it and with given tokens from the
operator on. -/
structure Follows (registry : Registry) (operator : Operator) (after : List Token)
    (make : Term → Term) : Prop where
  tokens : ∀ term, (make term).tokens = term.tokens ++ after
  leftEdge : ∀ term, (make term).leftEdge = operator :: term.leftEdge
  grouped : ∀ term, term.WellGrouped →
    (∀ holder ∈ term.rightEdge, holder.captures operator = false) → (make term).WellGrouped
  resolved : ∀ term, term.Over registry → (make term).Over registry

section

variable {registry : Registry} {operator : Operator} {after : List Token} {make : Term → Term}

/-- Whether a term begins as another one does, or with that one as the left operand of an operator
that nothing on its right edge captures. -/
private def Begins (operator : Operator) (left term : Term) : Prop :=
  term.leftEdge = left.leftEdge ∨ (term.leftEdge = operator :: left.leftEdge ∧
    ∀ holder ∈ left.rightEdge, holder.captures operator = false)

/-- What captured the left edge of an operand still does when something that it captures, or that
the right edge of the operand captures, has moved into the operand. -/
private theorem Begins.captured {holder : Operator} {left term : Term}
    (h : Begins operator left term)
    (hc : ¬∀ other ∈ holder :: left.rightEdge, other.captures operator = false)
    (hl : ∀ met ∈ left.leftEdge, holder.captures met = true) :
    ∀ met ∈ term.leftEdge, holder.captures met = true := by
  rcases h with he | ⟨he, hr⟩
  · rwa [he]
  · rw [he]
    have hh : holder.captures operator = true := by
      apply Bool.ne_false_iff.mp
      intro hn
      exact hc (List.forall_mem_cons.mpr ⟨hn, hr⟩)
    exact List.forall_mem_cons.mpr ⟨hh, hl⟩

private theorem Follows.groups (h : Follows registry operator after make) {left : Term}
    (hg : left.WellGrouped) (ho : left.Over registry)
    (hc : ∀ holder ∈ left.rightEdge, holder.captures operator = false) :
    ∃ term : Term, Groups registry (left.tokens ++ after) term ∧ Begins operator left term := by
  have hbegins : Begins operator left (make left) := .inr ⟨h.leftEdge left, hc⟩
  exact ⟨make left, ⟨h.grouped left hg hc, h.resolved left ho, h.tokens left⟩, hbegins⟩

private theorem Follows.exists_groups (h : Follows registry operator after make) {left : Term}
    (hg : left.WellGrouped) (ho : left.Over registry) :
    ∃ term : Term, Groups registry (left.tokens ++ after) term ∧ Begins operator left term := by
  -- Where nothing on the right edge captures the operator, the whole term is its left operand.
  -- Otherwise the operator goes to the last operand, whose right edge is what is left to examine.
  induction hg with
  | @unary sign function operand hg hcap ih =>
    by_cases hc : ∀ holder ∈ sign :: operand.rightEdge, holder.captures operator = false
    · exact h.groups (.unary hg hcap) ho hc
    · cases ho with | unary hs hf ho =>
      obtain ⟨term, ht, hb⟩ := ih ho
      have hcap' : ∀ met ∈ term.leftEdge, sign.captures met = true := hb.captured hc hcap
      have htokens : (unary sign function term).tokens =
          (unary sign function operand).tokens ++ after := by simp [Term.tokens, ht.tokens]
      exact ⟨unary sign function term,
        ⟨.unary ht.grouped hcap', .unary hs hf ht.resolved, htokens⟩, .inl rfl⟩
  | @binary other function first second hf hs hedge hcap _ ih =>
    by_cases hc : ∀ holder ∈ other :: second.rightEdge, holder.captures operator = false
    · exact h.groups (.binary hf hs hedge hcap) ho hc
    · cases ho with | binary hb hl ho1 ho2 =>
      obtain ⟨term, ht, hbegins⟩ := ih ho2
      have hcap' : ∀ met ∈ term.leftEdge, other.captures met = true := hbegins.captured hc hcap
      have htokens : (binary other function first term).tokens =
          (binary other function first second).tokens ++ after := by simp [Term.tokens, ht.tokens]
      exact ⟨binary other function first term,
        ⟨.binary hf ht.grouped hedge hcap', .binary hb hl ho1 ht.resolved, htokens⟩, .inl rfl⟩
  | @conditional function condition yes no hcond hy hn hedge _ _ ih =>
    by_cases hc : ∀ holder ∈ .ternaryTrue :: no.rightEdge, holder.captures operator = false
    · exact h.groups (.conditional hcond hy hn hedge) ho hc
    · cases ho with | conditional hl hoc hoy hon =>
      obtain ⟨term, ht, -⟩ := ih hon
      have htokens : (conditional function condition yes term).tokens =
          (conditional function condition yes no).tokens ++ after := by
        simp [Term.tokens, ht.tokens]
      exact ⟨conditional function condition yes term,
        ⟨.conditional hcond hy ht.grouped hedge, .conditional hl hoc hoy ht.resolved, htokens⟩,
        .inl rfl⟩
  | number value => exact h.groups (.number value) ho (by simp [rightEdge])
  | named path => exact h.groups (.named path) ho (by simp [rightEdge])
  | group hg => exact h.groups (.group hg) ho (by simp [rightEdge])
  | apply hg => exact h.groups (.apply hg) ho (by simp [rightEdge])
  | vector hg => exact h.groups (.vector hg) ho (by simp [rightEdge])
  | index ht hg hedge => exact h.groups (.index ht hg hedge) ho (by simp [rightEdge])

theorem follows_binary {function : Function} {right : Term} (hb : operator.isBinary = true)
    (hl : registry.lookupOperator operator 2 = .ok function) (hg : right.WellGrouped)
    (ho : right.Over registry) (hc : ∀ met ∈ right.leftEdge, operator.captures met = true) :
    Follows registry operator (.operator operator :: right.tokens)
      (binary operator function · right) :=
  ⟨fun _ => rfl, fun _ => rfl, fun _ hl hr => .binary hl hg hr hc, fun _ hol => .binary hb hl hol ho⟩

theorem follows_conditional {function : Function} {yes no : Term}
    (hl : registry.lookupOperator .ternary 3 = .ok function) (hy : yes.WellGrouped)
    (hoy : yes.Over registry) (hn : no.WellGrouped) (hon : no.Over registry) :
    Follows registry .ternaryTrue
      (.operator .ternaryTrue :: (yes.tokens ++ .operator .ternaryFalse :: no.tokens))
      (conditional function · yes no) :=
  ⟨fun _ => rfl, fun _ => rfl, fun _ hc hr => .conditional hc hy hn hr,
    fun _ hoc => .conditional hl hoc hoy hon⟩

theorem follows_index {items : List Term} (hg : ∀ item ∈ items, item.WellGrouped)
    (ho : ∀ item ∈ items, item.Over registry) :
    Follows registry .vectorStart
      (.operator .vectorStart :: (listTokens items ++ [.operator .vectorEnd])) (index · items) :=
  ⟨fun _ => rfl, fun _ => rfl, fun _ ht hr => .index ht hg hr, fun _ hot => .index hot ho⟩

private theorem exists_groups_before (before : List Token) (operator : Operator)
    (base : ∀ term : Term, term.WellGrouped → term.Over registry →
      (∀ met ∈ term.leftEdge, operator.captures met = true) →
      ∃ whole : Term, Groups registry (before ++ term.tokens) whole)
    {term : Term} (hg : term.WellGrouped) (ho : term.Over registry) :
    ∃ whole : Term, Groups registry (before ++ term.tokens) whole := by
  -- Where the operator does not capture all of the left edge, it takes the left operand only; what
  -- comes after that operand then follows the whole.
  induction hg with
  | @binary other function left right hl hr hedge hcap ihl =>
    by_cases hc : ∀ met ∈ other :: left.leftEdge, operator.captures met = true
    · exact base _ (.binary hl hr hedge hcap) ho hc
    · cases ho with | binary hb hf hol hor =>
      obtain ⟨first, hfirst⟩ := ihl hol
      obtain ⟨whole, hw, -⟩ :=
        (follows_binary hb hf hr hor hcap).exists_groups hfirst.grouped hfirst.resolved
      exact ⟨whole, by simpa [Term.tokens, hfirst.tokens] using hw⟩
  | @conditional function condition yes no hcond hy hn hedge ihc =>
    by_cases hc : ∀ met ∈ .ternaryTrue :: condition.leftEdge, operator.captures met = true
    · exact base _ (.conditional hcond hy hn hedge) ho hc
    · cases ho with | conditional hf hoc hoy hon =>
      obtain ⟨first, hfirst⟩ := ihc hoc
      obtain ⟨whole, hw, -⟩ :=
        (follows_conditional hf hy hoy hn hon).exists_groups hfirst.grouped hfirst.resolved
      exact ⟨whole, by simpa [Term.tokens, hfirst.tokens] using hw⟩
  | @index target items ht hg hedge iht =>
    by_cases hc : ∀ met ∈ .vectorStart :: target.leftEdge, operator.captures met = true
    · exact base _ (.index ht hg hedge) ho hc
    · cases ho with | index hot hoi =>
      obtain ⟨first, hfirst⟩ := iht hot
      obtain ⟨whole, hw, -⟩ := (follows_index hg hoi).exists_groups hfirst.grouped hfirst.resolved
      exact ⟨whole, by simpa [Term.tokens, hfirst.tokens] using hw⟩
  | number value => exact base _ (.number value) ho (by simp [leftEdge])
  | named path => exact base _ (.named path) ho (by simp [leftEdge])
  | group hg => exact base _ (.group hg) ho (by simp [leftEdge])
  | apply hg => exact base _ (.apply hg) ho (by simp [leftEdge])
  | vector hg => exact base _ (.vector hg) ho (by simp [leftEdge])
  | unary hg hcap => exact base _ (.unary hg hcap) ho (by simp [leftEdge])

theorem exists_map_eq {α β γ : Type} {f : α → γ} {g : β → γ} {fits : β → Prop} {xs : List α}
    (h : ∀ x ∈ xs, ∃ y, g y = f x ∧ fits y) :
    ∃ ys : List β, ys.map g = xs.map f ∧ ∀ y ∈ ys, fits y := by
  induction xs with
  | nil => exact ⟨[], rfl, List.forall_mem_nil _⟩
  | cons x rest ih =>
    obtain ⟨⟨y, hy, hf⟩, hr⟩ := List.forall_mem_cons.mp h
    obtain ⟨ys, hys, hfs⟩ := ih hr
    exact ⟨y :: ys, by rw [List.map_cons, List.map_cons, hy, hys],
      List.forall_mem_cons.mpr ⟨hf, hfs⟩⟩

private theorem exists_list_groups {terms : List Term}
    (h : ∀ term ∈ terms, ∃ other : Term, Groups registry term.tokens other) :
    ∃ others : List Term, others.length = terms.length ∧ listTokens others = listTokens terms ∧
      (∀ other ∈ others, other.WellGrouped) ∧ ∀ other ∈ others, other.Over registry := by
  have hone : ∀ term ∈ terms, ∃ other : Term, other.tokens = term.tokens ∧
      other.WellGrouped ∧ other.Over registry := by
    intro term hm
    obtain ⟨other, ho⟩ := h term hm
    exact ⟨other, ho.tokens, ho.grouped, ho.resolved⟩
  obtain ⟨others, ht, hg⟩ := exists_map_eq hone
  have hn : others.length = terms.length := by simpa using congrArg List.length ht
  refine ⟨others, hn, ?_, fun other hm => (hg other hm).1, fun other hm => (hg other hm).2⟩
  rw [listTokens_eq, listTokens_eq, ht]

/-- However a term groups, there is a well-grouped one of the same tokens. -/
theorem regroup {term : Term} (h : term.Over registry) :
    ∃ other : Term, Groups registry term.tokens other := by
  -- The operands are regrouped first, and then an operator finds its place between them.
  induction h with
  | number value => exact ⟨_, .number value, .number value, rfl⟩
  | named path => exact ⟨_, .named path, .named path, rfl⟩
  | group _ ih =>
    obtain ⟨inner, hi⟩ := ih
    exact ⟨_, .group hi.grouped, .group hi.resolved, by simp [Term.tokens, hi.tokens]⟩
  | apply hl _ ih =>
    obtain ⟨operands, hn, ht, hg, ho⟩ := exists_list_groups ih
    exact ⟨_, .apply hg, .apply (hn ▸ hl) ho, by simp [Term.tokens, ht]⟩
  | vector _ ih =>
    obtain ⟨items, -, ht, hg, ho⟩ := exists_list_groups ih
    exact ⟨_, .vector hg, .vector ho, by simp [Term.tokens, ht]⟩
  | @unary operator function _ hs hl _ ih =>
    obtain ⟨operand, hi⟩ := ih
    rw [Term.tokens, ← hi.tokens]
    refine exists_groups_before [.operator operator.written] operator ?_ hi.grouped hi.resolved
    intro term hg ho hc
    exact ⟨_, .unary hg hc, .unary hs hl ho, rfl⟩
  | @binary operator function _ _ hb hl _ _ ihl ihr =>
    obtain ⟨left, hleft⟩ := ihl
    obtain ⟨right, hright⟩ := ihr
    rw [Term.tokens, ← hleft.tokens, ← hright.tokens, List.append_cons]
    refine exists_groups_before (left.tokens ++ [.operator operator]) operator ?_ hright.grouped
      hright.resolved
    intro term hg ho hc
    obtain ⟨whole, hw, -⟩ :=
      (follows_binary hb hl hg ho hc).exists_groups hleft.grouped hleft.resolved
    exact ⟨whole, by simpa using hw⟩
  | conditional hl _ _ _ ihc ihy ihn =>
    obtain ⟨condition, hc⟩ := ihc
    obtain ⟨yes, hy⟩ := ihy
    obtain ⟨no, hn⟩ := ihn
    have hf := follows_conditional hl hy.grouped hy.resolved hn.grouped hn.resolved
    obtain ⟨whole, hw, -⟩ := hf.exists_groups hc.grouped hc.resolved
    exact ⟨whole, by simpa [Term.tokens, hc.tokens, hy.tokens, hn.tokens] using hw⟩
  | index _ _ iht ihi =>
    obtain ⟨target, ht⟩ := iht
    obtain ⟨items, -, hts, hg, ho⟩ := exists_list_groups ihi
    obtain ⟨whole, hw, -⟩ := (follows_index hg ho).exists_groups ht.grouped ht.resolved
    exact ⟨whole, by simpa [Term.tokens, ht.tokens, hts] using hw⟩

end

end VectorFormula.Term
