import Mathlib.Data.List.Sort
import Mathlib.Data.String.Basic
import Mathlib.Tactic.Tauto
import VectorFormula.Proofs.References.Search
/-!
The names that a formula misses are those that the formulas it reaches lack (`mem_unknowns`), sorted
and each of them once. They are looked for by one of the searches that there are.
-/
namespace VectorFormula.Scope

variable {scope : Scope} {formula : Formula} {name : String} {visited : List Nat}
  {todo : List Path}

theorem exists_run_missing (scope : Scope) (visited : List Nat) (todo : List Path)
    (found : List String) :
    ∃ last, Search.Run scope ⟨visited, todo, found⟩ last ∧ last.todo = [] ∧
      ∀ name, name ∈ last.found ↔ name ∈ scope.missing visited todo ∨ name ∈ found := by
  induction visited, todo using missing.induct scope generalizing found with
  | case1 visited => exact ⟨_, .refl, rfl, by simp [missing]⟩
  | case2 visited path rest hr ih =>
    obtain ⟨last, hrun, ht, hfound⟩ := ih (path.take 1 ++ found)
    refine ⟨last, .head (.unresolved (.refl _) hr) hrun, ht, fun name => ?_⟩
    rw [hfound, missing_unresolved hr, List.mem_append, List.mem_append]
    tauto
  | case3 visited path rest formula hr hv ih =>
    have hm : formula.id ∈ visited := List.contains_iff_mem.mp hv
    obtain ⟨last, hrun, ht, hfound⟩ := ih found
    refine ⟨last, .head (.again (.refl _) hr hm) hrun, ht, fun name => ?_⟩
    rw [hfound, missing_formula hr, if_pos hm]
  | case4 visited path rest formula hr hv ih =>
    have hm : formula.id ∉ visited := mt List.contains_iff_mem.mpr hv
    obtain ⟨last, hrun, ht, hfound⟩ := ih found
    refine ⟨last, .head (.enter (.refl _) hr hm) hrun, ht, fun name => ?_⟩
    rw [hfound, missing_formula hr, if_neg hm]
  | case5 visited path rest binding hb hr ih =>
    obtain ⟨last, hrun, ht, hfound⟩ := ih found
    refine ⟨last, .head (.other (.refl _) hr hb) hrun, ht, fun name => ?_⟩
    rw [hfound, missing_other hr hb]

private theorem mem_eraseReps_loop {first : String} {rest kept : List String} :
    name ∈ List.eraseRepsBy.loop (· == ·) first rest kept ↔
      name = first ∨ name ∈ rest ∨ name ∈ kept := by
  induction rest generalizing first kept with
  | nil => simp [List.eraseRepsBy.loop, or_comm]
  | cons next rest ih =>
    unfold List.eraseRepsBy.loop
    split
    · rename_i heq
      obtain rfl : first = next := by simpa using heq
      simp only [ih, List.mem_cons]
      tauto
    · simp only [ih, List.mem_cons]
      tauto

/-- What is kept so far stands in reverse, and `first` is the name that is compared. -/
private theorem pairwise_eraseReps_loop {first : String} {rest kept : List String}
    (hr : (first :: rest).Pairwise (· ≤ ·)) (hk : (first :: kept).Pairwise (· > ·)) :
    (List.eraseRepsBy.loop (· == ·) first rest kept).Pairwise (· < ·) := by
  induction rest generalizing first kept with
  | nil =>
    rw [List.eraseRepsBy.loop, List.pairwise_reverse]
    exact hk
  | cons next rest ih =>
    have hle : first ≤ next := List.rel_of_pairwise_cons hr List.mem_cons_self
    unfold List.eraseRepsBy.loop
    split
    · rename_i heq
      obtain rfl : first = next := by simpa using heq
      exact ih hr.of_cons hk
    · rename_i hne
      have hlt : first < next := lt_of_le_of_ne hle (by simpa using hne)
      refine ih hr.of_cons (List.pairwise_cons.mpr ⟨?_, hk⟩)
      intro name hn
      rcases List.mem_cons.mp hn with rfl | hn
      · exact hlt
      · exact lt_trans (List.rel_of_pairwise_cons hk hn) hlt

theorem mem_sortedNames {names : List String} : name ∈ sortedNames names ↔ name ∈ names := by
  unfold sortedNames
  rw [← @List.mem_mergeSort _ (fun a b => decide (a ≤ b)) name names]
  cases names.mergeSort fun a b => decide (a ≤ b) with
  | nil => rfl
  | cons first rest =>
    rw [List.eraseReps, List.eraseRepsBy, mem_eraseReps_loop]
    simp

theorem pairwise_sortedNames (names : List String) : (sortedNames names).Pairwise (· < ·) := by
  have hsorted := @List.pairwise_mergeSort String (fun a b => decide (a ≤ b))
    (by simpa using fun a b c => le_trans) (by simpa using le_total) names
  simp only [decide_eq_true_eq] at hsorted
  unfold sortedNames
  cases hl : names.mergeSort fun a b => decide (a ≤ b) with
  | nil => exact .nil
  | cons first rest =>
    rw [hl] at hsorted
    exact pairwise_eraseReps_loop hsorted (List.pairwise_singleton _ _)

theorem unknowns_eq_nil (h : ∀ path ∈ formula.program.paths, ∃ binding,
    scope.resolve path = some binding ∧ ∀ other, binding ≠ .formula other) :
    scope.unknowns formula = [] := by
  have hmissing (todo : List Path) (ht : ∀ path ∈ todo, ∃ binding,
      scope.resolve path = some binding ∧ ∀ other, binding ≠ .formula other) :
      scope.missing [formula.id] todo = [] := by
    induction todo with
    | nil => rw [missing]
    | cons path rest ih =>
      obtain ⟨⟨binding, hr, hb⟩, hrest⟩ := List.forall_mem_cons.mp ht
      rw [missing_other hr hb, ih hrest]
  rw [unknowns, hmissing _ h, sortedNames_nil]

theorem misses_iff : scope.Misses formula name ↔ ∃ path ∈ formula.program.paths,
    scope.resolve path = none ∧ path.head? = some name ∨
      ∃ next, scope.resolve path = some (.formula next) ∧ scope.Misses next name := by
  constructor
  · rintro ⟨reached, hreach, hlacks⟩
    cases hreach using Relation.ReflTransGen.head_induction_on with
    | refl =>
      obtain ⟨path, hp, hl⟩ := hlacks
      exact ⟨path, hp, .inl hl⟩
    | head hr hreach =>
      obtain ⟨path, hp, hr⟩ := hr
      exact ⟨path, hp, .inr ⟨_, hr, reached, hreach, hlacks⟩⟩
  · rintro ⟨path, hp, hl | ⟨next, hr, reached, hreach, hlacks⟩⟩
    · exact ⟨formula, .refl, path, hp, hl⟩
    · exact ⟨reached, .head ⟨path, hp, hr⟩ hreach, hlacks⟩

theorem mem_unknowns (hd : scope.Distinguishes formula) :
    name ∈ scope.unknowns formula ↔ scope.Misses formula name := by
  obtain ⟨last, hrun, ht, hfound⟩ :=
    exists_run_missing scope [formula.id] formula.program.paths []
  rw [unknowns, mem_sortedNames, ← hrun.mem_found hd ht, hfound]
  simp

theorem unknowns_congr {other : Scope} {copy : Formula} (hd : scope.Distinguishes formula)
    (hdc : other.Distinguishes copy)
    (h : ∀ name, other.Misses copy name ↔ scope.Misses formula name) :
    other.unknowns copy = scope.unknowns formula := by
  apply (pairwise_sortedNames _).eq_of_mem_iff (pairwise_sortedNames _)
  intro name
  exact (mem_unknowns hdc).trans ((h name).trans (mem_unknowns hd).symm)

end VectorFormula.Scope
