import VectorFormula.Proofs.Reading.Soundness
/-!
The other direction: a reader reads every well-grouped term over its registry that the tokens
spell, as far as its levels go (`reader_complete`).
-/
namespace VectorFormula.Term

open Tokens (Leaving)
open Emission (bound expect capturedBy maxNesting)

/-- Whether a reader reads everything that can be found, as the operand of a holder that would take
an opening parenthesis. -/
def Complete (registry : Registry) (levels : Nat) (inner : Reader) : Prop :=
  ∀ holder ahead term rest, capturedBy holder .groupStart = true →
    Reading registry levels holder ahead term rest →
    ∃ fewer, inner holder ahead = .ok ⟨(term, rest), fewer⟩

/-- Whether what comes next is the end, or an operator that neither opens operands nor belongs to what
one of `edge` holds. -/
def Settled (edge : List Operator) (rest : Tokens) : Prop :=
  rest.Yields fun met => met ≠ .groupStart ∧
    (met.isClosing = true ∨ ∀ holder ∈ edge, holder.captures met = false)

section

variable {registry : Registry} {levels : Nat} {inner : Reader}

private theorem Settled.free {edge : List Operator} {rest : Tokens} (h : Settled edge rest) :
    rest.Free edge := by
  rintro lexeme after met rfl ht
  obtain ⟨other, ho, hs⟩ := h
  obtain rfl : other = met := Token.operator.inj (ho.symm.trans ht)
  exact hs.2

private theorem Reading.settled {holder : Option Operator} {ahead rest : Tokens} {term : Term}
    (hg : capturedBy holder .groupStart = true)
    (h : Reading registry levels holder ahead term rest) : Settled term.rightEdge rest := by
  match rest, h with
  | .done, _ => trivial
  | .next lexeme after, h =>
    obtain ⟨met, ht, hs⟩ := h.stops
    refine ⟨met, ht, ?_, h.free _ _ _ rfl ht⟩
    rintro rfl
    rcases hs with hs | hs
    · cases hs
    · rw [hg] at hs; cases hs

private theorem next_of_spells {operator : Operator} {ahead rest : Tokens} {tokens : List Token}
    (h : Tokens.Spells (.operator operator :: tokens) ahead rest) :
    ∃ lexeme after, ahead = .next lexeme after ∧ lexeme.token = .operator operator ∧
      Tokens.Spells tokens after rest :=
  Tokens.spells_cons.mp h

private theorem settled_closing {lexeme : Lexeme} {closing : Operator} (edge : List Operator)
    (ht : lexeme.token = .operator closing) (hc : closing.isClosing = true) (rest : Tokens) :
    Settled edge (.next lexeme rest) :=
  ⟨closing, ht, And.intro (by rintro rfl; cases hc) (.inl hc)⟩

private theorem inner_closing (hi : Complete registry levels inner) {closing : Operator}
    {lexeme : Lexeme} {ahead rest : Tokens} {term : Term}
    (hs : Tokens.Spells term.tokens ahead (.next lexeme rest))
    (ht : lexeme.token = .operator closing) (hc : closing.isClosing = true)
    (hg : term.WellGrouped) (ho : term.Over registry) (hd : term.depth < levels) :
    ∃ fewer, inner none ahead = .ok ⟨(term, .next lexeme rest), fewer⟩ := by
  have hfree : (Tokens.next lexeme rest).Free term.rightEdge := (settled_closing _ ht hc rest).free
  exact hi _ _ _ _ rfl ⟨⟨hs, hg, ho, hd, hfree⟩, fun _ _ => rfl, closing, ht, .inl hc⟩

private theorem items_complete (hi : Complete registry levels inner) {closing : Operator}
    (hc : closing.isClosing = true) (hcomma : closing ≠ .comma) {terms : List Term}
    {ahead rest : Tokens} (hne : terms ≠ [])
    (h : Listed registry levels closing ahead terms rest) :
    ∃ fewer, items inner closing ahead = .ok ⟨(terms, rest), fewer⟩ := by
  induction terms generalizing ahead with
  | nil => exact absurd rfl hne
  | cons item more ih =>
    -- The last item has the closing delimiter behind it, every other one a comma.
    obtain ⟨hg, hmg⟩ := List.forall_mem_cons.mp h.grouped
    obtain ⟨ho, hmo⟩ := List.forall_mem_cons.mp h.resolved
    obtain ⟨hd, hmd⟩ := List.forall_mem_cons.mp (listDepth_le.mp h.shallow)
    have hs := h.spells
    by_cases hm : more = []
    · subst hm
      simp only [listTokens, moreTokens, List.append_nil] at hs
      obtain ⟨middle, hi1, hs⟩ := Tokens.spells_append.mp hs
      obtain ⟨lexeme, after, rfl, ht, rfl⟩ := next_of_spells hs
      obtain ⟨fewer, hr⟩ := inner_closing hi hi1 ht hc hg ho hd
      refine ⟨Nat.lt_of_succ_lt fewer, ?_⟩
      rw [items, hr]
      simp [Lexeme.isOperator_iff.mpr ht]
    · simp only [listTokens, moreTokens_eq hm, List.append_assoc, List.cons_append] at hs
      obtain ⟨middle, hi1, hs⟩ := Tokens.spells_append.mp hs
      obtain ⟨lexeme, after, rfl, ht, hs⟩ := next_of_spells hs
      obtain ⟨fewer, hr⟩ := inner_closing hi hi1 ht rfl hg ho hd
      obtain ⟨less, hmore⟩ := ih hm ⟨hs, hmg, hmo, listDepth_le.mpr hmd⟩
      have hnot : ¬lexeme.isOperator closing = true := by
        rw [Lexeme.isOperator_iff, ht]
        exact fun he => hcomma (Token.operator.inj he).symm
      refine ⟨Nat.lt_trans less (Nat.lt_of_succ_lt fewer), ?_⟩
      rw [items, hr]
      simp [hnot, Lexeme.isOperator_iff.mpr ht, hmore, bind, Except.bind, pure, Except.pure,
        Leaving.map, Leaving.widen]

theorem tokens_head {term : Term} (h : term.Over registry) :
    ∃ token more, term.tokens = token :: more ∧
      ∀ operator, token = .operator operator → operator.isClosing = false := by
  induction h with
  | number value => exact ⟨_, _, rfl, by simp⟩
  | named path => exact ⟨_, _, rfl, by simp⟩
  | group => exact ⟨_, _, rfl, by rintro _ ⟨⟩; rfl⟩
  | apply => exact ⟨_, _, rfl, by simp⟩
  | vector => exact ⟨_, _, rfl, by rintro _ ⟨⟩; rfl⟩
  | @unary operator function operand hs =>
    refine ⟨_, _, rfl, ?_⟩
    rintro _ ⟨⟩
    cases operator <;> first | rfl | cases hs
  | binary _ _ _ _ hl =>
    obtain ⟨token, more, ht, hn⟩ := hl
    exact ⟨token, _, by rw [tokens, ht]; rfl, hn⟩
  | conditional _ _ _ _ hc =>
    obtain ⟨token, more, ht, hn⟩ := hc
    exact ⟨token, _, by rw [tokens, ht]; rfl, hn⟩
  | index _ _ htarget =>
    obtain ⟨token, more, ht, hn⟩ := htarget
    exact ⟨token, _, by rw [tokens, ht]; rfl, hn⟩

private theorem list_complete (hi : Complete registry levels inner) {closing : Operator}
    (hc : closing.isClosing = true) (hcomma : closing ≠ .comma) {terms : List Term}
    {ahead rest : Tokens} (h : Listed registry levels closing ahead terms rest) :
    ∃ fewer, list inner closing ahead = .ok ⟨(terms, rest), fewer⟩ := by
  cases terms with
  | nil =>
    obtain ⟨lexeme, after, rfl, ht, rfl⟩ := next_of_spells h.spells
    refine ⟨Nat.lt_succ_self _, ?_⟩
    simp [list, Lexeme.isOperator_iff.mpr ht]
  | cons item more =>
    obtain ⟨token, others, htoken, hn⟩ := tokens_head (h.resolved item List.mem_cons_self)
    have hs := h.spells
    simp only [listTokens, htoken, List.cons_append] at hs
    obtain ⟨lexeme, after, rfl, ht, -⟩ := Tokens.spells_cons.mp hs
    have hnot : ¬lexeme.isOperator closing = true := by
      rw [Lexeme.isOperator_iff]
      intro he
      have := hn closing (ht.symm.trans he)
      rw [hc] at this
      cases this
    obtain ⟨fewer, hitems⟩ := items_complete hi hc hcomma (List.cons_ne_nil _ _) h
    exact ⟨fewer, by rw [list, if_neg hnot, hitems]⟩

private theorem operators_step {holder : Option Operator} {left term : Term} {lexeme : Lexeme}
    {rest after : Tokens} {operator : Operator} (ht : lexeme.token = .operator operator)
    (hc : operator.isClosing = false) (hh : capturedBy holder operator = true)
    (hin : ∃ fewer, infixed registry inner operator lexeme left rest = .ok ⟨(term, after), fewer⟩) :
    (operators registry inner holder left (.next lexeme rest)).map Subtype.val =
      (operators registry inner holder term after).map Subtype.val := by
  obtain ⟨fewer, hin⟩ := hin
  rw [operators.eq_def]
  simp only [ht, hc, hh, hin, bind, Except.bind]
  cases operators registry inner holder term after <;> rfl

private theorem operators_stop {holder : Option Operator} {left : Term} {rest : Tokens}
    (h : rest.Yields fun met => met.isClosing = true ∨ capturedBy holder met = false) :
    (operators registry inner holder left rest).map Subtype.val = .ok (left, rest) := by
  cases rest with
  | done => rw [operators]; rfl
  | bad error => exact h.elim
  | next lexeme rest =>
    obtain ⟨met, ht, hm⟩ := h
    rw [operators]
    simp only [ht]
    rw [if_pos (by simpa using hm)]
    rfl

private theorem bound_of_eq {ahead : Tokens} {found : Except LookupError Function}
    {function : Function} (h : found = .ok function) : bound ahead found = .ok function := by
  rw [h]; rfl

private theorem expect_of_spells {operator : Operator} {ahead rest : Tokens}
    (h : Tokens.Spells [.operator operator] ahead rest) :
    ∃ fewer, expect operator ahead = .ok ⟨rest, fewer⟩ := by
  obtain ⟨lexeme, after, rfl, ht, rfl⟩ := next_of_spells h
  exact ⟨Nat.lt_succ_self _, by simp [expect, Lexeme.isOperator_iff.mpr ht]⟩

private theorem captures_groupStart {operator : Operator}
    (h : operator.isSign = true ∨ operator.isBinary = true ∨ operator = .ternaryTrue ∨
      operator = .ternaryFalse) : operator.captures .groupStart = true := by
  cases operator <;> first | rfl | simp [Operator.isSign, Operator.isBinary] at h

theorem captures_ternary (met : Operator) :
    Operator.ternaryTrue.captures met = true := by
  cases met <;> rfl

private theorem inner_operand (hi : Complete registry levels inner) (operator : Operator)
    (hop : operator.captures .groupStart = true) {term : Term} {ahead rest : Tokens}
    (hs : Tokens.Spells term.tokens ahead rest) (hg : term.WellGrouped)
    (ho : term.Over registry) (hd : term.depth < levels)
    (hc : ∀ met ∈ term.leftEdge, operator.captures met = true)
    (hr : Settled (operator :: term.rightEdge) rest) :
    ∃ fewer, inner (some operator) ahead = .ok ⟨(term, rest), fewer⟩ := by
  have hfree : rest.Free term.rightEdge := by
    intro lexeme after met he ht
    exact (hr.free lexeme after met he ht).imp_right fun h => (List.forall_mem_cons.mp h).2
  have hstops : rest.Yields fun met =>
      met.isClosing = true ∨ capturedBy (some operator) met = false := by
    cases rest with
    | done => trivial
    | bad error => exact hr.elim
    | next lexeme after =>
      obtain ⟨met, ht, -, hm⟩ := hr
      exact ⟨met, ht, hm.imp_right fun h => h operator List.mem_cons_self⟩
  exact hi _ _ _ _ hop ⟨⟨hs, hg, ho, hd, hfree⟩, hc, hstops⟩

private theorem settled_ternary {edge : List Operator} {rest : Tokens}
    (h : Settled (.ternaryTrue :: edge) rest) : Settled (.ternaryFalse :: edge) rest := by
  cases rest with
  | done => trivial
  | bad error => exact h.elim
  | next lexeme rest =>
    obtain ⟨met, ht, hne, hm⟩ := h
    exact ⟨met, ht, hne,
      hm.imp_right fun h => List.forall_mem_cons.mpr (List.forall_mem_cons.mp h)⟩

private theorem settled_next {lexeme : Lexeme} {operator : Operator} {edge : List Operator}
    (ht : lexeme.token = .operator operator) (hne : operator ≠ .groupStart)
    (h : ∀ holder ∈ edge, holder.captures operator = false) (rest : Tokens) :
    Settled edge (.next lexeme rest) :=
  ⟨operator, ht, And.intro hne (.inr h)⟩

private theorem operand_complete (hi : Complete registry levels inner) {term : Term}
    (hg : term.WellGrouped) (ho : term.Over registry) {ahead rest : Tokens}
    (hs : Tokens.Spells term.tokens ahead rest) (hd : term.depth < levels + 1)
    (hr : Settled term.rightEdge rest) (hl : term.leftEdge = []) :
    ∃ fewer, operand registry inner ahead = .ok ⟨(term, rest), fewer⟩ := by
  cases hg with
  | number value =>
    obtain ⟨lexeme, after, rfl, ht, rfl⟩ := Tokens.spells_cons.mp hs
    exact ⟨Nat.lt_succ_self _, by simp only [operand, ht]⟩
  | named path =>
    obtain ⟨lexeme, after, rfl, ht, rfl⟩ := Tokens.spells_cons.mp hs
    refine ⟨Nat.lt_succ_self _, ?_⟩
    simp only [operand, ht]
    -- A parenthesis behind the name would make it a call.
    cases after with
    | done => rfl
    | bad error => exact hr.elim
    | next opening rest =>
      obtain ⟨met, hm, hne, -⟩ := hr
      have hnot : ¬opening.isOperator .groupStart = true := by
        rw [Lexeme.isOperator_iff, hm]
        exact fun he => hne (Token.operator.inj he)
      rw [afterName, if_neg hnot]
      rfl
  | group hg =>
    cases ho with | group ho =>
    obtain ⟨lexeme, after, rfl, ht, hs⟩ := next_of_spells hs
    obtain ⟨middle, hs, hclose⟩ := Tokens.spells_append.mp hs
    obtain ⟨closing, last, rfl, hct, -⟩ := next_of_spells hclose
    obtain ⟨fewer, hin⟩ := inner_closing hi hs hct rfl hg ho (Nat.lt_of_succ_lt_succ hd)
    obtain ⟨less, he⟩ := expect_of_spells hclose
    refine ⟨Nat.lt_succ_of_lt (Nat.lt_trans less fewer), ?_⟩
    simp only [operand, ht, prefixed, hin, he, bind, Except.bind, pure, Except.pure]
    rfl
  | apply hg =>
    cases ho with | apply hf ho =>
    obtain ⟨lexeme, after, rfl, ht, hs⟩ := Tokens.spells_cons.mp hs
    obtain ⟨opening, inside, rfl, hot, hs⟩ := next_of_spells hs
    obtain ⟨fewer, hl⟩ := list_complete hi rfl (by decide) ⟨hs, hg, ho, Nat.le_of_lt_succ hd⟩
    refine ⟨Nat.lt_add_right 2 fewer, ?_⟩
    simp only [operand, ht, afterName, Lexeme.isOperator_iff.mpr hot, if_true, hl, bound_of_eq hf,
      bind, Except.bind, pure, Except.pure]
    rfl
  | vector hg =>
    cases ho with | vector ho =>
    obtain ⟨lexeme, after, rfl, ht, hs⟩ := next_of_spells hs
    obtain ⟨fewer, hl⟩ := list_complete hi rfl (by decide) ⟨hs, hg, ho, Nat.le_of_lt_succ hd⟩
    refine ⟨Nat.lt_succ_of_lt fewer, ?_⟩
    simp only [operand, ht, prefixed, hl, bind, Except.bind, pure, Except.pure]
    rfl
  | @unary operator function inside hg hcap =>
    cases ho with | unary hsign hf ho =>
    obtain ⟨lexeme, after, rfl, ht, hs⟩ := next_of_spells hs
    have hop : operator.captures .groupStart = true := captures_groupStart (.inl hsign)
    obtain ⟨fewer, hin⟩ :=
      inner_operand hi operator hop hs hg ho (Nat.lt_of_succ_lt_succ hd) hcap hr
    refine ⟨Nat.lt_succ_of_lt fewer, ?_⟩
    simp only [operand, ht, prefixed_sign (Operator.asPrefix?_written hsign), hin, bound_of_eq hf,
      bind, Except.bind, pure, Except.pure]
    rfl
  | binary | conditional | index => cases hl

private theorem infixed_binary_complete (hi : Complete registry levels inner)
    {operator : Operator} {function : Function} (left : Term) {right : Term} (hb : operator.isBinary = true)
    (hf : registry.lookupOperator operator 2 = .ok function) (hg : right.WellGrouped)
    (ho : right.Over registry) (hd : right.depth < levels)
    (hcap : ∀ met ∈ right.leftEdge, operator.captures met = true) {ahead rest : Tokens}
    (hs : Tokens.Spells right.tokens ahead rest)
    (hr : Settled (operator :: right.rightEdge) rest) (lexeme : Lexeme) :
    ∃ fewer, infixed registry inner operator lexeme left ahead =
      .ok ⟨(binary operator function left right, rest), fewer⟩ := by
  have hop : operator.captures .groupStart = true := captures_groupStart (.inr (.inl hb))
  obtain ⟨fewer, hin⟩ := inner_operand hi operator hop hs hg ho hd hcap hr
  refine ⟨fewer, ?_⟩
  simp only [infixed_binary hb, hin, bound_of_eq hf, bind, Except.bind, pure, Except.pure,
    Leaving.map]

private theorem infixed_conditional_complete (hi : Complete registry levels inner)
    {function : Function} (condition : Term) {yes no : Term}
    (hf : registry.lookupOperator .ternary 3 = .ok function) (hy : yes.WellGrouped)
    (hn : no.WellGrouped) (hoy : yes.Over registry) (hon : no.Over registry)
    (hdy : yes.depth < levels) (hdn : no.depth < levels) {ahead rest : Tokens}
    (hs : Tokens.Spells (yes.tokens ++ .operator .ternaryFalse :: no.tokens) ahead rest)
    (hr : Settled (.ternaryTrue :: no.rightEdge) rest) (lexeme : Lexeme) :
    ∃ fewer, infixed registry inner .ternaryTrue lexeme condition ahead =
      .ok ⟨(conditional function condition yes no, rest), fewer⟩ := by
  obtain ⟨middle, hsy, hs⟩ := Tokens.spells_append.mp hs
  obtain ⟨colon, last, rfl, htc, hsn⟩ := next_of_spells hs
  obtain ⟨fewer, hyes⟩ := inner_operand hi .ternaryTrue rfl hsy hy hoy hdy
    (fun met _ => captures_ternary met) (settled_closing _ htc rfl last)
  obtain ⟨less, hno⟩ := inner_operand hi .ternaryFalse rfl hsn hn hon hdn
    (fun met _ => captures_ternary met) (settled_ternary hr)
  have hexpect : expect .ternaryFalse (.next colon last) = .ok ⟨last, Nat.lt_succ_self _⟩ := by
    simp [expect, Lexeme.isOperator_iff.mpr htc]
  refine ⟨Nat.lt_trans less (Nat.lt_of_succ_lt fewer), ?_⟩
  simp only [infixed, hyes, hexpect, hno, bound_of_eq hf, bind, Except.bind, pure, Except.pure,
    Leaving.map, Leaving.widen]

private theorem infixed_index_complete (hi : Complete registry levels inner) (target : Term)
    {items : List Term} {ahead rest : Tokens}
    (h : Listed registry levels .vectorEnd ahead items rest) (lexeme : Lexeme) :
    ∃ fewer, infixed registry inner .vectorStart lexeme target ahead =
      .ok ⟨(index target items, rest), fewer⟩ := by
  obtain ⟨fewer, hl⟩ := list_complete hi rfl (by decide) h
  refine ⟨fewer, ?_⟩
  simp only [infixed, hl, bind, Except.bind, pure, Except.pure, Leaving.map]

private theorem operand_alone (hi : Complete registry levels inner) {holder : Option Operator}
    {term : Term} (hg : term.WellGrouped) (ho : term.Over registry) {ahead rest : Tokens}
    (hs : Tokens.Spells term.tokens ahead rest) (hd : term.depth < levels + 1)
    (hr : Settled term.rightEdge rest) (hl : term.leftEdge = []) :
    ∃ found, operand registry inner ahead = .ok found ∧
      (operators registry inner holder found.val.1 found.val.2).map Subtype.val =
        (operators registry inner holder term rest).map Subtype.val := by
  obtain ⟨fewer, h⟩ := operand_complete hi hg ho hs hd hr hl
  exact ⟨_, h, rfl⟩

/-- The leftmost operand of a term is read first; what is left to read are the operators after the
whole term. -/
private theorem operand_operators (hi : Complete registry levels inner)
    {holder : Option Operator} {term : Term} (hg : term.WellGrouped) (ho : term.Over registry)
    {ahead rest : Tokens} (hs : Tokens.Spells term.tokens ahead rest)
    (hd : term.depth < levels + 1) (hc : ∀ met ∈ term.leftEdge, capturedBy holder met = true)
    (hr : Settled term.rightEdge rest) :
    ∃ found, operand registry inner ahead = .ok found ∧
      (operators registry inner holder found.val.1 found.val.2).map Subtype.val =
        (operators registry inner holder term rest).map Subtype.val := by
  -- The induction goes down the left edge. Reading the operators after the left operand comes to
  -- reading those after the term, because the holder captures the operator in between.
  induction hg generalizing ahead rest with
  | number value => exact operand_alone hi (.number value) ho hs hd hr rfl
  | named path => exact operand_alone hi (.named path) ho hs hd hr rfl
  | group hg => exact operand_alone hi (.group hg) ho hs hd hr rfl
  | apply hg => exact operand_alone hi (.apply hg) ho hs hd hr rfl
  | vector hg => exact operand_alone hi (.vector hg) ho hs hd hr rfl
  | unary hg hcap => exact operand_alone hi (.unary hg hcap) ho hs hd hr rfl
  | @binary operator function left right hl hright hedge hcap ihl =>
    cases ho with | binary hb hf hol hor =>
    obtain ⟨middle, hsl, hs⟩ := Tokens.spells_append.mp hs
    obtain ⟨lexeme, after, rfl, ht, hsr⟩ := next_of_spells hs
    obtain ⟨hholder, hc⟩ := List.forall_mem_cons.mp hc
    obtain ⟨hdl, hdr⟩ := Nat.max_lt.mp hd
    have hne : operator ≠ .groupStart := by rintro rfl; cases hb
    have hcl : operator.isClosing = false := by cases operator <;> first | rfl | cases hb
    have hin := infixed_binary_complete hi left hb hf hright hor
      (Nat.lt_of_succ_lt_succ hdr) hcap hsr hr lexeme
    obtain ⟨found, hfound, heq⟩ := ihl hol hsl hdl hc (settled_next ht hne hedge after)
    exact ⟨found, hfound, heq.trans (operators_step ht hcl hholder hin)⟩
  | @conditional function condition yes no hcond hy hn hedge ihc =>
    cases ho with | conditional hf hoc hoy hon =>
    obtain ⟨middle, hsc, hs⟩ := Tokens.spells_append.mp hs
    obtain ⟨lexeme, after, rfl, ht, hs⟩ := next_of_spells hs
    obtain ⟨hholder, hc⟩ := List.forall_mem_cons.mp hc
    obtain ⟨hdc, hd⟩ := Nat.max_lt.mp hd
    obtain ⟨hdy, hdn⟩ := Nat.max_lt.mp hd
    have hin := infixed_conditional_complete hi condition hf hy hn hoy hon
      (Nat.lt_of_succ_lt_succ hdy) (Nat.lt_of_succ_lt_succ hdn) hs hr lexeme
    obtain ⟨found, hfound, heq⟩ := ihc hoc hsc hdc hc (settled_next ht (by decide) hedge after)
    exact ⟨found, hfound, heq.trans (operators_step ht rfl hholder hin)⟩
  | @index target items ht hitems hedge iht =>
    cases ho with | index hot hoi =>
    obtain ⟨middle, hst, hs⟩ := Tokens.spells_append.mp hs
    obtain ⟨lexeme, after, rfl, ht, hsi⟩ := next_of_spells hs
    obtain ⟨hholder, hc⟩ := List.forall_mem_cons.mp hc
    obtain ⟨hdt, hdi⟩ := Nat.max_lt.mp hd
    have hin := infixed_index_complete hi target
      ⟨hsi, hitems, hoi, Nat.le_of_lt_succ hdi⟩ lexeme
    obtain ⟨found, hfound, heq⟩ := iht hot hst hdt hc (settled_next ht (by decide) hedge after)
    exact ⟨found, hfound, heq.trans (operators_step ht rfl hholder hin)⟩

theorem reader_complete (registry : Registry) (levels : Nat) :
    Complete registry levels (reader registry levels) := by
  induction levels with
  | zero => exact fun _ _ _ _ _ h => absurd h.shallow (Nat.not_lt_zero _)
  | succ levels ih =>
    intro holder ahead term rest hg h
    obtain ⟨⟨⟨left, after⟩, fewer⟩, hop, heq⟩ := operand_operators ih h.grouped h.resolved h.spells
      h.shallow h.captured (h.settled hg)
    rw [operators_stop h.stops] at heq
    match hr : operators registry (reader registry levels) holder left after, heq with
    | .ok ⟨found, less⟩, heq =>
      cases heq
      refine ⟨Nat.lt_of_lt_of_le less fewer, ?_⟩
      simp only [reader, hop, hr, bind, Except.bind, pure, Except.pure, Leaving.widen]

end

end VectorFormula.Term
