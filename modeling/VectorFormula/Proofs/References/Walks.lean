import Mathlib.Data.List.Chain
import Mathlib.Data.List.Nodup
import Mathlib.Logic.Relation
import VectorFormula.Scope.Unknowns
/-!
References between formulas. A formula refers to the formulas that the dotted names in its program
lead to; a walk follows references from one formula to the next.
-/
namespace VectorFormula.Scope

/-- Whether a dotted name in the program of a formula leads to another formula. -/
def Refers (scope : Scope) (formula other : Formula) : Prop :=
  ∃ path ∈ formula.program.paths, scope.resolve path = some (.formula other)

/-- Whether formulas can be visited in order from a given one on, one step for each of them. -/
def Walk (scope : Scope) (start : Formula) (visits : List Formula) : Prop :=
  (start :: visits).IsChain scope.Refers

/-- Whether references lead from a formula to another in any number of steps. -/
abbrev Reaches (scope : Scope) : Formula → Formula → Prop :=
  Relation.ReflTransGen scope.Refers

/-- Whether references lead from a formula back to it. -/
def Cyclic (scope : Scope) (formula : Formula) : Prop :=
  Relation.TransGen scope.Refers formula formula

/-- Whether identities tell formulas apart: of a given formula and those of the scope, no two have
one identity. -/
def Distinguishes (scope : Scope) (formula : Formula) : Prop :=
  ∀ a ∈ formula :: scope.formulas, ∀ b ∈ formula :: scope.formulas, a.id = b.id → a = b

variable {scope : Scope} {root formula other : Formula} {visits : List Formula}

theorem Refers.mem_formulas (h : scope.Refers formula other) : other ∈ scope.formulas := by
  obtain ⟨path, -, hr⟩ := h
  exact mem_formulas_of_resolve hr

theorem Reaches.mem_formulas (h : scope.Reaches root formula) : formula ∈ root :: scope.formulas := by
  cases h with
  | refl => exact List.mem_cons_self
  | tail _ h => exact List.mem_cons_of_mem _ h.mem_formulas

theorem walk_cons {visit : Formula} :
    scope.Walk root (visit :: visits) ↔ scope.Refers root visit ∧ scope.Walk visit visits :=
  List.isChain_cons_cons

private theorem exists_longer_walk (h : Relation.TransGen scope.Refers formula other)
    (hw : scope.Walk other visits) :
    ∃ more, scope.Walk formula more ∧ visits.length < more.length := by
  induction h using Relation.TransGen.head_induction_on with
  | single hr => exact ⟨other :: visits, walk_cons.mpr ⟨hr, hw⟩, Nat.lt_succ_self _⟩
  | @head formula next hr _ ih =>
    obtain ⟨more, hm, hl⟩ := ih
    exact ⟨next :: more, walk_cons.mpr ⟨hr, hm⟩, Nat.lt_succ_of_lt hl⟩

theorem exists_walk_of_cyclic (h : scope.Reaches root formula) (hc : scope.Cyclic formula)
    (length : Nat) : ∃ visits, scope.Walk root visits ∧ length ≤ visits.length := by
  have hround : ∃ visits, scope.Walk formula visits ∧ length ≤ visits.length := by
    induction length with
    | zero => exact ⟨[], List.isChain_singleton formula, Nat.zero_le _⟩
    | succ length ih =>
      obtain ⟨visits, hw, hl⟩ := ih
      obtain ⟨more, hm, hlt⟩ := exists_longer_walk hc hw
      exact ⟨more, hm, Nat.succ_le_of_lt (Nat.lt_of_le_of_lt hl hlt)⟩
  obtain ⟨visits, hw, hl⟩ := hround
  rcases Relation.reflTransGen_iff_eq_or_transGen.mp h with rfl | h
  · exact ⟨visits, hw, hl⟩
  · obtain ⟨more, hm, hlt⟩ := exists_longer_walk h hw
    exact ⟨more, hm, Nat.le_trans hl (Nat.le_of_lt hlt)⟩

theorem not_cyclic_of_bounded {bound : Nat}
    (hb : ∀ visits, scope.Walk root visits → visits.length ≤ bound)
    (h : scope.Reaches root formula) : ¬ scope.Cyclic formula := by
  intro hc
  obtain ⟨visits, hw, hl⟩ := exists_walk_of_cyclic h hc (bound + 1)
  exact absurd (hb visits hw) (Nat.not_le_of_lt hl)

/-- Formulas that are entered one from another, the last one entered in front. None of them is
entered again. -/
inductive Entered (scope : Scope) (root : Formula) : List Formula → Prop
  | root : Entered scope root [root]
  | enter {current : Formula} {outer : List Formula} {formula : Formula} :
    Entered scope root (current :: outer) → scope.Refers current formula →
    formula.id ∉ (current :: outer).map (·.id) →
    Entered scope root (formula :: current :: outer)

variable {current : Formula} {outer : List Formula}

theorem Entered.reaches (h : scope.Entered root (current :: outer))
    (hm : formula ∈ current :: outer) :
    scope.Reaches root formula ∧ scope.Reaches formula current := by
  generalize ht : current :: outer = trail at h hm
  induction h generalizing current outer formula with
  | root =>
    cases ht
    cases List.mem_singleton.mp hm
    exact ⟨.refl, .refl⟩
  | @enter inner outer' entered h hr _ ih =>
    cases ht
    have hinner := ih rfl List.mem_cons_self
    rcases List.mem_cons.mp hm with rfl | hm
    · exact ⟨hinner.1.tail hr, .refl⟩
    · have hreach := ih rfl hm
      exact ⟨hreach.1, hreach.2.tail hr⟩

theorem Entered.nodup {trail : List Formula} (h : scope.Entered root trail) :
    (trail.map (·.id)).Nodup := by
  induction h with
  | root => exact List.pairwise_singleton _ _
  | enter _ _ hn ih => exact List.nodup_cons.mpr ⟨hn, ih⟩

theorem Entered.walk {trail : List Formula} (h : scope.Entered root trail) :
    ∃ visits, trail.reverse = root :: visits ∧ scope.Walk root visits ∧
      ((root :: visits).map (·.id)).Nodup := by
  have hwalk : ∃ visits, trail.reverse = root :: visits ∧ scope.Walk root visits := by
    induction h with
    | root => exact ⟨[], rfl, List.isChain_singleton root⟩
    | @enter current outer entered _ hr _ ih =>
      obtain ⟨visits, ht, hw⟩ := ih
      have hlast : (root :: visits).getLast? = some current := by rw [← ht]; simp
      refine ⟨visits ++ [entered], by rw [List.reverse_cons, ht, List.cons_append], ?_⟩
      apply List.IsChain.append hw (List.isChain_singleton entered)
      intro last hl next he
      rw [hlast] at hl
      cases hl
      cases he
      exact hr
  obtain ⟨visits, ht, hw⟩ := hwalk
  refine ⟨visits, ht, hw, ?_⟩
  rw [← ht, List.map_reverse, List.nodup_reverse]
  exact h.nodup

end VectorFormula.Scope
