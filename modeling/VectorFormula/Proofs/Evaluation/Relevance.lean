import VectorFormula.Proofs.Machine.Persistence
import VectorFormula.Proofs.References.Walks
/-!
What an evaluation takes from its scope: nothing but what the dotted names of the formulas that
are reached lead to (`evaluate_relevant`).
-/
namespace VectorFormula

namespace Scope

/-- Whether another scope reads a dotted name alike: it leads to the same there, or it leads nowhere
in the first scope and to zero in the other one. -/
def ReadsAlike (scope other : Scope) (path : Path) : Prop :=
  other.resolve path = scope.resolve path ∨
    scope.resolve path = none ∧ other.resolve path = some (.number 0.0)

/-- Whether all dotted names of the formulas that a formula reaches lead to the same in another
scope. -/
def Agrees (scope other : Scope) (formula : Formula) : Prop :=
  ∀ reached, scope.Reaches formula reached → ∀ path ∈ reached.program.paths,
    other.resolve path = scope.resolve path

variable {scope other : Scope} {formula next : Formula} {path : Path}

theorem Agrees.refl (scope : Scope) (formula : Formula) : scope.Agrees scope formula :=
  fun _ _ _ _ => rfl

theorem Agrees.refers (h : scope.Agrees other formula) (hr : scope.Refers formula next) :
    scope.Agrees other next :=
  fun reached hreach => h reached (.head hr hreach)

theorem resolve_congr (h : ∀ root, path.head? = some root → other.get? root = scope.get? root) :
    other.resolve path = scope.resolve path := by
  cases path with
  | nil => rfl
  | cons root rest => rw [resolve, resolve, h root rfl]

theorem missing_congr {visited seen : List Nat} {todo : List Path}
    (h : ∀ path ∈ todo, other.resolve path = scope.resolve path ∧
      ∀ formula, scope.resolve path = some (.formula formula) → scope.Agrees other formula)
    (hv : ∀ formula ∈ scope.formulas, formula.id ∈ seen ↔ formula.id ∈ visited) :
    other.missing seen todo = scope.missing visited todo := by
  induction visited, todo using missing.induct scope generalizing seen with
  | case1 visited => rw [missing, missing]
  | case2 visited path rest hr ih =>
    obtain ⟨⟨hp, -⟩, hrest⟩ := List.forall_mem_cons.mp h
    rw [missing_unresolved hr, missing_unresolved (hp.trans hr), ih hrest hv]
  | case3 visited path rest formula hr hc ih =>
    obtain ⟨⟨hp, -⟩, hrest⟩ := List.forall_mem_cons.mp h
    have hm : formula.id ∈ visited := List.contains_iff_mem.mp hc
    have hseen : formula.id ∈ seen := (hv formula (mem_formulas_of_resolve hr)).mpr hm
    rw [missing_formula hr, missing_formula (hp.trans hr), if_pos hm, if_pos hseen, ih hrest hv]
  | case4 visited path rest formula hr hc ih =>
    obtain ⟨⟨hp, hf⟩, hrest⟩ := List.forall_mem_cons.mp h
    have hm : formula.id ∉ visited := mt List.contains_iff_mem.mpr hc
    have hseen : formula.id ∉ seen := mt (hv formula (mem_formulas_of_resolve hr)).mp hm
    rw [missing_formula hr, missing_formula (hp.trans hr), if_neg hm, if_neg hseen]
    apply ih
    · -- The names of the formula come first, and the scopes agree on all that it reaches.
      intro path hpath
      rcases List.mem_append.mp hpath with hpath | hpath
      · have hagrees := hf formula hr
        exact ⟨hagrees formula .refl path hpath, fun next hn => hagrees.refers ⟨path, hpath, hn⟩⟩
      · exact hrest path hpath
    · intro next hn
      rw [List.mem_cons, List.mem_cons, hv next hn]
  | case5 visited path rest binding hb hr ih =>
    obtain ⟨⟨hp, -⟩, hrest⟩ := List.forall_mem_cons.mp h
    rw [missing_other hr hb, missing_other (hp.trans hr) hb, ih hrest hv]

theorem Agrees.unknowns (h : scope.Agrees other formula) :
    other.unknowns formula = scope.unknowns formula := by
  rw [Scope.unknowns, Scope.unknowns, missing_congr _ fun _ _ => Iff.rfl]
  exact fun path hp => ⟨h formula .refl path hp, fun next hn => h.refers ⟨path, hp, hn⟩⟩

end Scope

/-- A layer in which all of the given names are zero. -/
def Context.zeros (names : List String) : Context :=
  .ofList (names.map (·, .number 0.0))

namespace Scope

variable {names : List String} {layers : List Context}

theorem get?_zeros (names : List String) (name : String) :
    (Context.zeros names).get? name = if name ∈ names then some (.number 0.0) else none := by
  rw [Context.zeros, NameTable.ofList, NameTable.get?_insertAll, ← List.map_reverse,
    NameTable.find_map]
  simp

theorem get?_ofLayers_zeros (layers : List Context) (hn : ∀ name ∈ names, constants.get? name = none)
    (name : String) :
    (ofLayers (.zeros names :: layers)).get? name = (ofLayers layers).get? name ∨
      (ofLayers layers).get? name = none ∧
        (ofLayers (.zeros names :: layers)).get? name = some (.number 0.0) := by
  simp only [get?_ofLayers, List.reverse_cons, List.findSome?_append, List.findSome?_singleton,
    get?_zeros]
  cases layers.reverse.findSome? (·.get? name) with
  | some binding => exact .inl rfl
  | none =>
    by_cases hm : name ∈ names
    · exact .inr ⟨by simp [hn name hm], by simp [hm]⟩
    · exact .inl (by simp [hm])

/-- A number has no members, so a longer name that begins with one of the zeros leads nowhere, as it
does without them. -/
theorem readsAlike_zeros (hn : ∀ name ∈ names, constants.get? name = none) (path : Path) :
    (ofLayers layers).ReadsAlike (ofLayers (.zeros names :: layers)) path := by
  cases path with
  | nil => exact .inl rfl
  | cons root rest =>
    rcases get?_ofLayers_zeros layers hn root with h | ⟨hnone, hzero⟩
    · exact .inl (by rw [resolve, resolve, h])
    · cases rest with
      | nil => exact .inr ⟨by rw [resolve, hnone]; rfl, by rw [resolve, hzero]; rfl⟩
      | cons member rest => exact .inl (by rw [resolve, resolve, hnone, hzero]; rfl)

end Scope

namespace Evaluation

variable {scope other : Scope} {options : Options} {path : Path}

private theorem load_alike (h : scope.ReadsAlike other path) {chain trail : List Nat}
    {enter onward : Path → Formula → Run Value}
    (hf : ∀ formula, scope.resolve path = some (.formula formula) →
      (formula.id ∈ trail ↔ formula.id ∈ chain) ∧
        (onward path formula).result = (enter path formula).result) :
    (load other options trail onward path).result = (load scope options chain enter path).result := by
  rcases h with h | ⟨hn, hz⟩
  · exact load_congr h fun formula hr => ⟨(hf formula hr).1, fun _ => (hf formula hr).2⟩
  · rw [load_unresolved hn]
    simp only [load, hz]
    rfl

/-- Formulas of one program have one result in scopes that read all dotted names of the formulas that
are reached alike, if the same formulas of the scope are being evaluated. -/
theorem within_same_program (depth : Nat) {chain trail : List Nat} {formula copy : Formula}
    (hp : copy.program = formula.program)
    (hids : ∀ bound ∈ scope.formulas,
      bound.id ∈ copy.id :: trail ↔ bound.id ∈ formula.id :: chain)
    (h : ∀ reached, scope.Reaches formula reached → ∀ path ∈ reached.program.paths,
      scope.ReadsAlike other path) :
    (within other options depth trail copy).result =
      (within scope options depth chain formula).result := by
  rw [within, within, hp]
  induction depth generalizing formula copy chain trail with
  | zero =>
    apply Program.run_congr
    intro path hpath
    exact load_alike (h formula .refl path hpath) fun next hr =>
      ⟨hids next (Scope.mem_formulas_of_resolve hr), rfl⟩
  | succ depth ih =>
    apply Program.run_congr
    intro path hpath
    apply load_alike (h formula .refl path hpath)
    intro next hr
    refine ⟨hids next (Scope.mem_formulas_of_resolve hr), ?_⟩
    rw [result_nested, result_nested, within, within]
    apply ih rfl
    · intro bound hb
      rw [List.mem_cons, hids bound hb]
      exact List.mem_cons.symm
    · exact fun reached hreach => h reached (.head ⟨path, hpath, hr⟩ hreach)

theorem within_alike (depth : Nat) (chain : List Nat) {formula : Formula}
    (h : ∀ reached, scope.Reaches formula reached → ∀ path ∈ reached.program.paths,
      scope.ReadsAlike other path) :
    (within other options depth chain formula).result =
      (within scope options depth chain formula).result :=
  within_same_program depth rfl (fun _ _ => Iff.rfl) h

end Evaluation

namespace Formula

/-- Evaluation depends only on the names that it can reach: if two lists of layers bind the roots of
all dotted names of the formulas that are reached to the same, the formula has one result in both,
whatever the options, and the same unknown names. -/
theorem evaluate_relevant (formula : Formula) (layers others : List Context)
    (h : ∀ reached, (Scope.ofLayers layers).Reaches formula reached →
      ∀ path ∈ reached.program.paths, ∀ root, path.head? = some root →
        (Scope.ofLayers others).get? root = (Scope.ofLayers layers).get? root) :
    (∀ options, (formula.evaluate others options).result =
      (formula.evaluate layers options).result) ∧
    formula.unknowns others = formula.unknowns layers := by
  have hagrees : (Scope.ofLayers layers).Agrees (.ofLayers others) formula :=
    fun reached hreach path hp => Scope.resolve_congr (h reached hreach path hp)
  refine ⟨fun options => ?_, hagrees.unknowns⟩
  have hwithin := @Evaluation.within_alike _ _ options options.maxDepth [] formula
    fun reached hreach path hp => .inl (hagrees reached hreach path hp)
  rw [result_evaluate_eq, result_evaluate_eq, hagrees.unknowns, hwithin]

/-- A name that is bound to a vector of a number and of a name that leads nowhere: what another name is
bound to makes no difference, were it a formula that refers to itself. -/
theorem evaluate_relevant_hidden :
    let inner : Formula := ⟨1, "[y, w]", [.load ["y"], .load ["w"], .vector 2]⟩
    let formula : Formula := ⟨0, "[x]", [.load ["x"], .vector 1]⟩
    let layers : List Context :=
      [⟨[("x", .formula inner), ("y", .number 3.0), ("z", .number 1.0)]⟩]
    let others : List Context :=
      [⟨[("y", .number 3.0), ("z", .formula ⟨2, "z", [.load ["z"]]⟩)]⟩, ⟨[("x", .formula inner)]⟩]
    (∀ reached, (Scope.ofLayers layers).Reaches formula reached →
      ∀ path ∈ reached.program.paths, ∀ root, path.head? = some root →
        (Scope.ofLayers others).get? root = (Scope.ofLayers layers).get? root) ∧
    (formula.evaluate others {}).result = .ok ⟨[3.0, 0.0]⟩ ∧
    formula.unknowns others = formula.unknowns layers := by
  intro inner formula layers others
  have h : ∀ reached, (Scope.ofLayers layers).Reaches formula reached →
      ∀ path ∈ reached.program.paths, ∀ root, path.head? = some root →
        (Scope.ofLayers others).get? root = (Scope.ofLayers layers).get? root := by
    intro reached hreach path hp root hroot
    have hformulas : (Scope.ofLayers layers).formulas = [inner] := rfl
    have hmem : reached = formula ∨ reached = inner := by simpa [hformulas] using hreach.mem_formulas
    rcases hmem with rfl | rfl
    · obtain rfl : path = ["x"] := by simpa [formula, program] using hp
      cases hroot
      rfl
    · have hpath : path = ["y"] ∨ path = ["w"] := by simpa [inner, program] using hp
      rcases hpath with rfl | rfl <;> cases hroot <;> rfl
  obtain ⟨hresult, hunknowns⟩ := evaluate_relevant formula layers others h
  exact ⟨h, hresult {}, hunknowns⟩

/-- The zero of a name that leads nowhere is that of a layer under all others: an evaluation that is
not strict has the same result with a layer of zeros for any names that are no constants. -/
theorem evaluate_zeros (formula : Formula) (layers : List Context) (options : Options)
    (names : List String) (hs : options.strict = false)
    (hn : ∀ name ∈ names, constants.get? name = none) :
    (formula.evaluate (.zeros names :: layers) options).result =
      (formula.evaluate layers options).result := by
  simp only [result_evaluate_eq, hs, Bool.false_eq_true, false_and, if_false]
  exact Evaluation.within_alike _ _ fun _ _ path _ => Scope.readsAlike_zeros hn path

/-- Zeros for a name that a formula reads, one that a layer binds and one that only has a part. -/
theorem evaluate_zeros_nested :
    let layers : List Context :=
      [⟨[("x", .formula ⟨1, "[y, z.a]", [.load ["y"], .load ["z", "a"], .vector 2]⟩)]⟩]
    let formula : Formula := ⟨0, "[x, e]", [.load ["x"], .load ["e"], .vector 2]⟩
    (∀ name ∈ ["x", "y", "z"], constants.get? name = none) ∧
      (formula.evaluate (.zeros ["x", "y", "z"] :: layers) {}).result =
        .ok ⟨[0.0, 0.0, 2.718281828459045]⟩ := by
  intro layers formula
  have hn : ∀ name ∈ ["x", "y", "z"], constants.get? name = none := by decide
  exact ⟨hn, evaluate_zeros formula layers {} _ rfl hn⟩

end Formula

end VectorFormula
