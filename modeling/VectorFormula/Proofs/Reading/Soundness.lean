import VectorFormula.Term.Grouping
import VectorFormula.Term.Reader
/-!
What a reader reads is a well-grouped term over its registry that the tokens spell, as large as
the holder allows (`reader_sound`).
-/
namespace VectorFormula.Term

open Tokens (Leaving)
open Emission (bound expect capturedBy)

/-- A well-grouped term over a registry, on at most so many levels, that is spelled by the tokens
from `ahead` to `rest`. What comes next belongs to nothing inside it. -/
structure Found (registry : Registry) (levels : Nat) (ahead : Tokens) (term : Term)
    (rest : Tokens) : Prop where
  spells : Tokens.Spells term.tokens ahead rest
  grouped : term.WellGrouped
  resolved : term.Over registry
  shallow : term.depth < levels
  free : rest.Free term.rightEdge

/-- A term found as the operand of a holder: the holder captures its left edge, and neither it nor
its right edge captures what comes next. -/
structure Reading (registry : Registry) (levels : Nat) (holder : Option Operator)
    (ahead : Tokens) (term : Term) (rest : Tokens) : Prop
    extends Found registry levels ahead term rest where
  captured : ∀ met ∈ term.leftEdge, capturedBy holder met = true
  stops : rest.Yields fun met => met.isClosing = true ∨ capturedBy holder met = false

/-- Well-grouped terms over a registry, each on at most so many levels, that are spelled with commas
between them and a closing delimiter behind them. -/
structure Listed (registry : Registry) (levels : Nat) (closing : Operator) (ahead : Tokens)
    (terms : List Term) (rest : Tokens) : Prop where
  spells : Tokens.Spells (listTokens terms ++ [.operator closing]) ahead rest
  grouped : ∀ term ∈ terms, term.WellGrouped
  resolved : ∀ term ∈ terms, term.Over registry
  shallow : listDepth terms ≤ levels

/-- Whether all that a reader reads is found as it should be. -/
def Sound (registry : Registry) (levels : Nat) (inner : Reader) : Prop :=
  ∀ holder ahead found, inner holder ahead = .ok found →
    Reading registry levels holder ahead found.val.1 found.val.2

theorem bound_eq_ok {ahead : Tokens} {found : Except LookupError Function} {function : Function}
    (h : bound ahead found = .ok function) : found = .ok function := by
  cases found with
  | error error => cases h
  | ok other => exact congrArg _ (Except.ok.inj h)

theorem spells_of_expect {operator : Operator} {ahead : Tokens}
    {rest : {rest : Tokens // rest.length < ahead.length}}
    (h : expect operator ahead = .ok rest) : Tokens.Spells [.operator operator] ahead rest.val := by
  cases ahead with
  | next lexeme ahead =>
    simp only [expect] at h
    split at h
    · rename_i ho
      cases h
      exact ⟨Lexeme.isOperator_iff.mp ho, rfl⟩
    · cases h
  | _ => cases h

section

variable {registry : Registry} {levels : Nat} {inner : Reader}

/-- What comes after the operand of a holder belongs neither to the holder nor to anything inside the
operand. -/
theorem Reading.free_cons {holder : Operator} {ahead : Tokens} {term : Term} {rest : Tokens}
    (h : Reading registry levels (some holder) ahead term rest) :
    rest.Free (holder :: term.rightEdge) := by
  rintro lexeme after met rfl ht
  obtain ⟨other, ho, hs⟩ := h.stops
  obtain rfl : other = met := Token.operator.inj (ho.symm.trans ht)
  rcases hs with hs | hs
  · exact .inl hs
  · exact (h.free _ _ _ rfl ht).imp_right fun hf => List.forall_mem_cons.mpr ⟨hs, hf⟩

private theorem items_sound (hi : Sound registry levels inner) {closing : Operator}
    {ahead : Tokens} {found : Leaving ahead.length (List Term)}
    (h : items inner closing ahead = .ok found) :
    found.val.1 ≠ [] ∧ Listed registry levels closing ahead found.val.1 found.val.2 := by
  rw [items] at h
  match hr : inner none ahead, h with
  | .ok ⟨(item, .next lexeme rest), fewer⟩, h =>
    have hitem := hi _ _ _ hr
    simp only at h
    split at h
    · rename_i hc
      cases h
      have hspells : Tokens.Spells (listTokens [item] ++ [.operator closing]) ahead rest := by
        simp only [listTokens, moreTokens, List.append_nil]
        exact Tokens.spells_append.mpr ⟨_, hitem.spells, Lexeme.isOperator_iff.mp hc, rfl⟩
      have hshallow : listDepth [item] ≤ levels := listDepth_le.mpr (by simpa using hitem.shallow)
      exact ⟨List.cons_ne_nil _ _, hspells, by simpa using hitem.grouped,
        by simpa using hitem.resolved, hshallow⟩
    · split at h
      · rename_i hc
        obtain ⟨more, hm, hf⟩ := bind_eq_ok.mp h
        cases hf
        obtain ⟨hne, hl⟩ := items_sound hi hm
        have hspells : Tokens.Spells (listTokens (item :: more.val.1) ++ [.operator closing])
            ahead more.val.2 := by
          simp only [listTokens, moreTokens_eq hne, List.append_assoc]
          exact Tokens.spells_append.mpr
            ⟨_, hitem.spells, Lexeme.isOperator_iff.mp hc, hl.spells⟩
        have hshallow : ∀ term ∈ item :: more.val.1, term.depth < levels :=
          List.forall_mem_cons.mpr ⟨hitem.shallow, listDepth_le.mp hl.shallow⟩
        exact ⟨List.cons_ne_nil _ _, hspells,
          List.forall_mem_cons.mpr ⟨hitem.grouped, hl.grouped⟩,
          List.forall_mem_cons.mpr ⟨hitem.resolved, hl.resolved⟩, listDepth_le.mpr hshallow⟩
      · cases h
termination_by ahead.length
decreasing_by exact Nat.lt_of_succ_lt fewer

private theorem list_sound (hi : Sound registry levels inner) {closing : Operator}
    {ahead : Tokens} {found : Leaving ahead.length (List Term)}
    (h : list inner closing ahead = .ok found) :
    Listed registry levels closing ahead found.val.1 found.val.2 := by
  cases ahead with
  | done => exact (items_sound hi h).2
  | bad error => cases h
  | next lexeme rest =>
    simp only [list] at h
    split at h
    · rename_i hc
      cases h
      exact ⟨⟨Lexeme.isOperator_iff.mp hc, rfl⟩, by simp, by simp, Nat.zero_le _⟩
    · exact (items_sound hi h).2

private theorem free_nil (rest : Tokens) : rest.Free [] :=
  fun _ _ _ _ _ => .inr fun _ h => nomatch h

private theorem free_ternary {edge : List Operator} {rest : Tokens}
    (h : rest.Free (.ternaryFalse :: edge)) : rest.Free (.ternaryTrue :: edge) := by
  intro lexeme after met ha ht
  refine (h lexeme after met ha ht).imp_right fun hf => ?_
  exact List.forall_mem_cons.mpr (List.forall_mem_cons.mp hf)

private theorem afterName_sound (hi : Sound registry levels inner) {path : Path}
    {lexeme : Lexeme} (ht : lexeme.token = .identifier path) {ahead : Tokens}
    {found : Leaving (ahead.length + 1) Term}
    (h : afterName registry inner path ahead = .ok found) :
    Found registry (levels + 1) (.next lexeme ahead) found.val.1 found.val.2 ∧
      found.val.1.leftEdge = [] := by
  have hname (rest : Tokens) :
      Found registry (levels + 1) (.next lexeme rest) (named path) rest :=
    ⟨⟨ht, rfl⟩, .named path, .named path, Nat.succ_pos _, free_nil _⟩
  cases ahead with
  | done => cases h; exact ⟨hname _, rfl⟩
  | bad error => cases h
  | next opening rest =>
    simp only [afterName] at h
    split at h
    · rename_i ho
      obtain ⟨operands, hl, h⟩ := bind_eq_ok.mp h
      obtain ⟨function, hf, h⟩ := bind_eq_ok.mp h
      cases h
      have hl := list_sound hi hl
      refine ⟨?_, rfl⟩
      exact { spells := ⟨ht, Lexeme.isOperator_iff.mp ho, hl.spells⟩
              grouped := .apply hl.grouped
              resolved := .apply (bound_eq_ok hf) hl.resolved
              shallow := Nat.lt_succ_of_le hl.shallow
              free := free_nil _ }
    · cases h; exact ⟨hname _, rfl⟩

theorem written_of_asPrefix? {operator sign : Operator} (h : operator.asPrefix? = some sign) :
    sign.isSign = true ∧ sign.written = operator := by
  cases operator <;> cases h <;> exact ⟨rfl, rfl⟩

private theorem prefixed_sound (hi : Sound registry levels inner) {operator : Operator}
    {lexeme : Lexeme} (ht : lexeme.token = .operator operator) {ahead : Tokens}
    {found : Leaving ahead.length Term}
    (h : prefixed registry inner operator lexeme ahead = .ok found) :
    Found registry (levels + 1) (.next lexeme ahead) found.val.1 found.val.2 ∧
      found.val.1.leftEdge = [] := by
  by_cases hg : operator = .groupStart
  · subst hg
    obtain ⟨term, hr, h⟩ := bind_eq_ok.mp h
    obtain ⟨rest, he, h⟩ := bind_eq_ok.mp h
    cases h
    have hr := hi _ _ _ hr
    refine ⟨?_, rfl⟩
    exact { spells := ⟨ht, Tokens.spells_append.mpr ⟨_, hr.spells, spells_of_expect he⟩⟩
            grouped := .group hr.grouped
            resolved := .group hr.resolved
            shallow := Nat.succ_lt_succ hr.shallow
            free := free_nil _ }
  by_cases hv : operator = .vectorStart
  · subst hv
    obtain ⟨items, hl, h⟩ := bind_eq_ok.mp h
    cases h
    have hl := list_sound hi hl
    refine ⟨?_, rfl⟩
    exact { spells := ⟨ht, hl.spells⟩
            grouped := .vector hl.grouped
            resolved := .vector hl.resolved
            shallow := Nat.lt_succ_of_le hl.shallow
            free := free_nil _ }
  cases hs : operator.asPrefix? with
  | none => rw [prefixed_other hg hv hs] at h; cases h
  | some sign =>
    obtain ⟨hsign, hw⟩ := written_of_asPrefix? hs
    rw [prefixed_sign hs] at h
    obtain ⟨operand, hr, h⟩ := bind_eq_ok.mp h
    obtain ⟨function, hf, h⟩ := bind_eq_ok.mp h
    cases h
    have hr := hi _ _ _ hr
    refine ⟨?_, rfl⟩
    exact { spells := ⟨hw ▸ ht, hr.spells⟩
            grouped := .unary hr.grouped hr.captured
            resolved := .unary hsign (bound_eq_ok hf) hr.resolved
            shallow := Nat.succ_lt_succ hr.shallow
            free := hr.free_cons }

private theorem operand_sound (hi : Sound registry levels inner) {ahead : Tokens}
    {found : Leaving ahead.length Term} (h : operand registry inner ahead = .ok found) :
    Found registry (levels + 1) ahead found.val.1 found.val.2 ∧ found.val.1.leftEdge = [] := by
  cases ahead with
  | done => cases h
  | bad error => cases h
  | next lexeme rest =>
    cases ht : lexeme.token with
    | number value =>
      simp only [operand, ht] at h
      cases h
      exact ⟨⟨⟨ht, rfl⟩, .number value, .number value, Nat.succ_pos _, free_nil _⟩, rfl⟩
    | identifier path =>
      simp only [operand, ht] at h
      exact afterName_sound hi ht h
    | operator operator =>
      simp only [operand, ht] at h
      obtain ⟨inside, hp, h⟩ := bind_eq_ok.mp h
      cases h
      exact prefixed_sound hi ht hp

private theorem infixed_sound (hi : Sound registry levels inner) {start : Tokens} {left : Term}
    {operator : Operator} {lexeme : Lexeme} {ahead : Tokens}
    (hl : Found registry (levels + 1) start left (.next lexeme ahead))
    (ht : lexeme.token = .operator operator) (hc : operator.isClosing = false)
    {found : Leaving ahead.length Term}
    (h : infixed registry inner operator lexeme left ahead = .ok found) :
    Found registry (levels + 1) start found.val.1 found.val.2 ∧
      found.val.1.leftEdge = operator :: left.leftEdge := by
  -- What is read so far is the left operand: nothing on its right edge captures the operator.
  have hfree : ∀ holder ∈ left.rightEdge, holder.captures operator = false :=
    (hl.free _ _ _ rfl ht).resolve_left (by simp [hc])
  by_cases hq : operator = .ternaryTrue
  · subst hq
    obtain ⟨yes, hy, h⟩ := bind_eq_ok.mp h
    obtain ⟨rest, he, h⟩ := bind_eq_ok.mp h
    obtain ⟨no, hn, h⟩ := bind_eq_ok.mp h
    obtain ⟨function, hf, h⟩ := bind_eq_ok.mp h
    cases h
    have hy := hi _ _ _ hy
    have hn := hi _ _ _ hn
    have hno : Tokens.Spells (.operator .ternaryFalse :: no.val.1.tokens) yes.val.2 no.val.2 := by
      change Tokens.Spells ([.operator .ternaryFalse] ++ no.val.1.tokens) _ _
      exact Tokens.spells_append.mpr ⟨_, spells_of_expect he, hn.spells⟩
    have hyes : Tokens.Spells (yes.val.1.tokens ++ .operator .ternaryFalse :: no.val.1.tokens)
        ahead no.val.2 := Tokens.spells_append.mpr ⟨_, hy.spells, hno⟩
    have hshallow : max (yes.val.1.depth + 1) (no.val.1.depth + 1) < levels + 1 :=
      Nat.max_lt.mpr ⟨Nat.succ_lt_succ hy.shallow, Nat.succ_lt_succ hn.shallow⟩
    refine ⟨?_, rfl⟩
    exact { spells := Tokens.spells_append.mpr ⟨_, hl.spells, ht, hyes⟩
            grouped := .conditional hl.grouped hy.grouped hn.grouped hfree
            resolved := .conditional (bound_eq_ok hf) hl.resolved hy.resolved hn.resolved
            shallow := Nat.max_lt.mpr ⟨hl.shallow, hshallow⟩
            free := free_ternary hn.free_cons }
  by_cases hv : operator = .vectorStart
  · subst hv
    obtain ⟨items, hs, h⟩ := bind_eq_ok.mp h
    cases h
    have hs := list_sound hi hs
    refine ⟨?_, rfl⟩
    exact { spells := Tokens.spells_append.mpr ⟨_, hl.spells, ht, hs.spells⟩
            grouped := .index hl.grouped hs.grouped hfree
            resolved := .index hl.resolved hs.resolved
            shallow := Nat.max_lt.mpr ⟨hl.shallow, Nat.lt_succ_of_le hs.shallow⟩
            free := free_nil _ }
  cases hb : operator.isBinary with
  | false => rw [infixed_other hq hv hb] at h; cases h
  | true =>
    rw [infixed_binary hb] at h
    obtain ⟨right, hr, h⟩ := bind_eq_ok.mp h
    obtain ⟨function, hf, h⟩ := bind_eq_ok.mp h
    cases h
    have hr := hi _ _ _ hr
    refine ⟨?_, rfl⟩
    exact { spells := Tokens.spells_append.mpr ⟨_, hl.spells, ht, hr.spells⟩
            grouped := .binary hl.grouped hr.grouped hfree hr.captured
            resolved := .binary hb (bound_eq_ok hf) hl.resolved hr.resolved
            shallow := Nat.max_lt.mpr ⟨hl.shallow, Nat.succ_lt_succ hr.shallow⟩
            free := hr.free_cons }

private theorem operators_sound (hi : Sound registry levels inner) {holder : Option Operator}
    {start : Tokens} (left : Term) (ahead : Tokens) :
    Found registry (levels + 1) start left ahead →
    (∀ met ∈ left.leftEdge, capturedBy holder met = true) →
    ∀ found, operators registry inner holder left ahead = .ok found →
      Reading registry (levels + 1) holder start found.val.1 found.val.2 := by
  match ahead with
  | .done =>
    intro hl hc found h
    rw [operators] at h
    cases h
    exact ⟨hl, hc, trivial⟩
  | .bad error =>
    intro hl hc found h
    rw [operators] at h
    cases h
  | .next lexeme rest =>
    intro hl hc found h
    rw [operators] at h
    cases ht : lexeme.token with
    | number value | identifier path => simp only [ht] at h; cases h
    | operator operator =>
      simp only [ht] at h
      split at h
      · rename_i hs
        cases h
        exact ⟨hl, hc, operator, ht, by simpa using hs⟩
      · rename_i hs
        simp only [Bool.or_eq_true, Bool.not_eq_true', not_or, Bool.not_eq_true,
          Bool.not_eq_false] at hs
        obtain ⟨⟨⟨term, after⟩, fewer⟩, hin, h⟩ := bind_eq_ok.mp h
        obtain ⟨more, hm, h⟩ := bind_eq_ok.mp h
        cases h
        obtain ⟨hterm, hedge⟩ := infixed_sound hi hl ht hs.1 hin
        -- The left edge has grown by the operator, which the holder captures.
        have hcaptured : ∀ met ∈ term.leftEdge, capturedBy holder met = true := by
          rw [hedge]
          exact List.forall_mem_cons.mpr ⟨hs.2, hc⟩
        exact operators_sound hi term after hterm hcaptured _ hm
termination_by ahead.length
decreasing_by exact Nat.lt_succ_of_lt fewer

/-- What a reader reads, the tokens spell, and it groups as it should. -/
theorem reader_sound (registry : Registry) (levels : Nat) :
    Sound registry levels (reader registry levels) := by
  induction levels with
  | zero => intro _ _ _ h; cases h
  | succ levels ih =>
    intro holder ahead found h
    obtain ⟨left, hl, h⟩ := bind_eq_ok.mp h
    obtain ⟨rest, hr, h⟩ := bind_eq_ok.mp h
    cases h
    obtain ⟨hleft, hedge⟩ := operand_sound ih hl
    exact operators_sound ih _ _ hleft (by simp [hedge]) _ hr

end

end VectorFormula.Term
