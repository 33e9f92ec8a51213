import VectorFormula.Proofs.Machine.Persistence
import VectorFormula.Proofs.References.Copies
/-!
Evaluations that meet no guard. With levels enough, a name is read with the same result whatever
else is being evaluated, and whether formulas are shared or copied (`reading_unguarded`).
-/
namespace VectorFormula

namespace Scope

variable {scope : Scope} {formula other : Formula}

theorem Distinguishes.refers (hd : scope.Distinguishes formula) (hr : scope.Refers formula other) :
    scope.Distinguishes other := by
  have hsub : other :: scope.formulas ⊆ formula :: scope.formulas :=
    List.cons_subset.mpr
      ⟨List.mem_cons_of_mem _ hr.mem_formulas, List.subset_cons_self _ _⟩
  exact fun a ha b hb => hd a (hsub ha) b (hsub hb)

/-- Whether a formula can be entered, and all that it reaches after it, without meeting a guard:
there are levels enough, and none of the formulas is being evaluated. -/
structure Unguarded (scope : Scope) (formula : Formula) (depth : Nat) (chain : List Nat) : Prop where
  bounded : ∀ visits, scope.Walk formula visits → visits.length ≤ depth
  fresh : ∀ reached, scope.Reaches formula reached → reached.id ∉ chain

theorem unguarded_nil {depth : Nat}
    (h : ∀ visits, scope.Walk formula visits → visits.length ≤ depth) :
    scope.Unguarded formula depth [] :=
  ⟨h, fun _ _ => List.not_mem_nil⟩

theorem Unguarded.refers {depth : Nat} {chain : List Nat} (h : scope.Unguarded formula depth chain)
    (hd : scope.Distinguishes formula) (hr : scope.Refers formula other) :
    ∃ less, depth = less + 1 ∧ scope.Unguarded other less (formula.id :: chain) := by
  have hlength {visits : List Formula} (hw : scope.Walk other visits) : visits.length + 1 ≤ depth :=
    h.bounded (other :: visits) (walk_cons.mpr ⟨hr, hw⟩)
  obtain ⟨less, rfl⟩ := Nat.exists_eq_add_one.mpr (hlength (List.isChain_singleton other))
  refine ⟨less, rfl, fun visits hw => Nat.le_of_succ_le_succ (hlength hw), ?_⟩
  intro reached hreach hm
  rcases List.mem_cons.mp hm with hid | hm
  · obtain rfl : reached = formula :=
      hd reached (Reaches.mem_formulas (.head hr hreach)) formula List.mem_cons_self hid
    exact not_cyclic_of_bounded h.bounded .refl (.head' hr hreach)
  · exact h.fresh reached (.head hr hreach) hm

end Scope

namespace Evaluation

variable {scope other : Scope} {options : Options} {formula copy : Formula} {path : Path}
  {chain trail : List Nat}

theorem load_copies (h : Scope.Copies scope other) {enter onward : Path → Formula → Run Value}
    (hf : ∀ formula copy, scope.resolve path = some (.formula formula) →
      other.resolve path = some (.formula copy) → copy.expression = formula.expression →
      formula.id ∉ chain ∧ copy.id ∉ trail ∧
        (onward path copy).result = (enter path formula).result) :
    (load other options trail onward path).result = (load scope options chain enter path).result := by
  cases hs : scope.resolve path with
  | none => rw [load_unresolved hs, load_unresolved (h.resolve_none hs)]
  | some binding =>
    obtain ⟨found, ho, ha⟩ := h.resolve_some hs
    by_cases hb : ∃ formula, binding = .formula formula
    · obtain ⟨formula, rfl⟩ := hb
      obtain ⟨copy, hc, he⟩ := h.resolve_formula hs
      obtain ⟨hn, hnc, henter⟩ := hf formula copy hs hc he
      rw [load_formula hs, load_formula hc, if_neg hn, if_neg hnc, henter]
    · rcases Binding.cases_of_anonymous ha with ⟨f, _, rfl, _⟩ | ⟨v, _, _, rfl, rfl⟩ | rfl
      · exact absurd ⟨f, rfl⟩ hb
      · simp only [load, hs, ho]
      · cases found with
        | formula f => exact absurd ⟨f, rfl⟩ hb
        | _ => simp only [load, hs, ho]

/-- In scopes that are copies of each other, two formulas that meet no guard read a name that both
have with the same result, however deep they are and whatever is being evaluated. -/
theorem reading_unguarded {depth further : Nat} (h : Scope.Copies scope other)
    (hd : scope.Distinguishes formula) (hdc : other.Distinguishes copy)
    (hu : scope.Unguarded formula depth chain) (huc : other.Unguarded copy further trail)
    (hp : path ∈ formula.program.paths) (hpc : path ∈ copy.program.paths) :
    (reading other options further (copy.id :: trail) path).result =
      (reading scope options depth (formula.id :: chain) path).result := by
  -- The induction is on the levels that are left to the first formula; each reference takes one from
  -- both, and no formula that is met is being evaluated on either side.
  induction depth generalizing formula copy further chain trail path with
  | zero =>
    apply load_copies h
    intro next _ hr
    obtain ⟨less, hless, -⟩ := hu.refers hd ⟨path, hp, hr⟩
    cases hless
  | succ depth ih =>
    apply load_copies h
    intro next another hr ho he
    have hrefers : scope.Refers formula next := ⟨path, hp, hr⟩
    have hreferso : other.Refers copy another := ⟨path, hpc, ho⟩
    obtain ⟨_, ⟨⟩, hn⟩ := hu.refers hd hrefers
    obtain ⟨_, rfl, hno⟩ := huc.refers hdc hreferso
    refine ⟨hn.fresh next .refl, hno.fresh another .refl, ?_⟩
    have hprogram : another.program = next.program := congrArg Expression.program he
    rw [result_nested, result_nested, within, within, hprogram]
    apply Program.run_congr
    intro name hname
    exact ih (hd.refers hrefers) (hdc.refers hreferso) hn hno hname (hprogram ▸ hname)

theorem within_unguarded {depth further : Nat} (h : Scope.Copies scope other)
    (hc : copy.expression = formula.expression) (hd : scope.Distinguishes formula)
    (hdc : other.Distinguishes copy) (hu : scope.Unguarded formula depth chain)
    (huc : other.Unguarded copy further trail) :
    (within other options further trail copy).result =
      (within scope options depth chain formula).result := by
  have hprogram : copy.program = formula.program := congrArg Expression.program hc
  rw [within, within, hprogram]
  apply Program.run_congr
  intro path hp
  exact reading_unguarded h hd hdc hu huc hp (hprogram ▸ hp)

end Evaluation

end VectorFormula
