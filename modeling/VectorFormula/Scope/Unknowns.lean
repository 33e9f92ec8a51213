import VectorFormula.Scope
/-!
The names that a formula misses in a scope: the roots of the dotted names in its program that lead
nowhere, and those of all formulas that it leads to. Every formula is looked through once.
-/
namespace VectorFormula

def Program.paths (program : Program) : List Path :=
  program.filterMap fun
    | .load path => some path
    | _ => none

@[simp] theorem Program.mem_paths {program : Program} {path : Path} :
    path ∈ program.paths ↔ .load path ∈ program := by
  rw [Program.paths, List.mem_filterMap]
  constructor
  · rintro ⟨instruction, hm, h⟩
    cases instruction <;> cases h
    exact hm
  · intro h
    exact ⟨_, h, rfl⟩

namespace Scope

def unvisited (scope : Scope) (visited : List Nat) : Nat :=
  (scope.formulas.filter fun formula => !visited.contains formula.id).length

private theorem length_filter_lt {α : Type} {p q : α → Bool} (himp : ∀ a, p a = true → q a = true)
    {a : α} {l : List α} (hm : a ∈ l) (hp : p a = false) (hq : q a = true) :
    (l.filter p).length < (l.filter q).length := by
  have hle : ∀ l : List α, (l.filter p).length ≤ (l.filter q).length := by
    intro l
    rw [← List.countP_eq_length_filter, ← List.countP_eq_length_filter]
    exact List.countP_mono_left fun b _ => himp b
  induction l with
  | nil => cases hm
  | cons head rest ih =>
    rcases List.mem_cons.mp hm with rfl | h
    · rw [List.filter_cons_of_neg (by rw [hp]; exact Bool.false_ne_true),
        List.filter_cons_of_pos hq]
      exact Nat.lt_succ_of_le (hle rest)
    · cases hc : p head with
      | true =>
        rw [List.filter_cons_of_pos hc, List.filter_cons_of_pos (himp head hc)]
        exact Nat.succ_lt_succ (ih h)
      | false =>
        rw [List.filter_cons_of_neg (by rw [hc]; exact Bool.false_ne_true)]
        exact Nat.lt_of_lt_of_le (ih h) ((List.sublist_cons_self head rest).filter q).length_le

theorem unvisited_lt {scope : Scope} {visited : List Nat} {formula : Formula}
    (hm : formula ∈ scope.formulas) (hv : visited.contains formula.id = false) :
    scope.unvisited (formula.id :: visited) < scope.unvisited visited := by
  refine length_filter_lt (fun f h => ?_) hm ?_ ?_
  · rw [List.contains_cons, Bool.not_or, Bool.and_eq_true] at h
    exact h.2
  · rw [List.contains_cons, BEq.rfl, Bool.true_or]
    rfl
  · rw [hv]
    rfl

/-- Collects the roots of the dotted names that lead nowhere, passing on to the formulas that are
not yet visited. -/
def missing (scope : Scope) (visited : List Nat) : List Path → List String
  | [] => []
  | path :: rest =>
    match _ : scope.resolve path with
    | none => path.take 1 ++ missing scope visited rest
    | some (.formula formula) =>
      if _ : visited.contains formula.id = true then missing scope visited rest
      else missing scope (formula.id :: visited) (formula.program.paths ++ rest)
    | some _ => missing scope visited rest
termination_by todo => (scope.unvisited visited, todo.length)
decreasing_by
  · exact Prod.Lex.right _ (Nat.lt_succ_self _)
  · exact Prod.Lex.right _ (Nat.lt_succ_self _)
  · exact Prod.Lex.left _ _ (unvisited_lt (mem_formulas_of_resolve ‹_›) (by simp_all))
  · exact Prod.Lex.right _ (Nat.lt_succ_self _)

section

variable {scope : Scope} {visited : List Nat} {path : Path} {rest : List Path}

theorem missing_unresolved (h : scope.resolve path = none) :
    scope.missing visited (path :: rest) = path.take 1 ++ scope.missing visited rest := by
  rw [missing]
  split <;> simp_all

theorem missing_formula {formula : Formula} (h : scope.resolve path = some (.formula formula)) :
    scope.missing visited (path :: rest) =
      if formula.id ∈ visited then scope.missing visited rest
      else scope.missing (formula.id :: visited) (formula.program.paths ++ rest) := by
  rw [missing]
  split <;> simp_all

theorem missing_other {binding : Binding} (h : scope.resolve path = some binding)
    (hb : ∀ formula, binding ≠ .formula formula) :
    scope.missing visited (path :: rest) = scope.missing visited rest := by
  rw [missing]
  split
  · simp_all
  · rename_i formula heq
    rw [h] at heq
    exact absurd (Option.some.inj heq) (hb formula)
  · rfl

end

def sortedNames (names : List String) : List String :=
  (names.mergeSort fun a b => decide (a ≤ b)).eraseReps

@[simp] theorem sortedNames_nil : sortedNames [] = [] := by
  rw [sortedNames, List.mergeSort_nil]
  rfl

def unknowns (scope : Scope) (formula : Formula) : List String :=
  sortedNames (scope.missing [formula.id] formula.program.paths)

end Scope

end VectorFormula
