import VectorFormula.Proofs.References.Search
/-!
Shared formulas and copies of them. Scopes that are the same but for the identities of their
formulas lead dotted names to copies of each other (`Copies.resolve_formula`).
-/
namespace VectorFormula

namespace Binding

mutual

/-- A binding without the identities of its formulas. -/
def anonymous : Binding → Binding
  | .formula f => .formula { f with id := 0 }
  | .item v (some ⟨entries⟩) => .item v (some ⟨anonymousAll entries⟩)
  | binding => binding

def anonymousAll : List (String × Binding) → List (String × Binding)
  | [] => []
  | (name, binding) :: rest => (name, binding.anonymous) :: anonymousAll rest

end

theorem find_anonymousAll (name : String) (entries : List (String × Binding)) :
    NameTable.find name (anonymousAll entries) = (NameTable.find name entries).map anonymous := by
  induction entries with
  | nil => rfl
  | cons entry rest ih =>
    simp only [anonymousAll, NameTable.find]
    split
    · rfl
    · exact ih

theorem descend_anonymous (binding : Binding) (path : List String) :
    binding.anonymous.descend path = (binding.descend path).map anonymous := by
  induction path generalizing binding with
  | nil => simp [descend]
  | cons name rest ih =>
    match binding with
    | .item _ (some ⟨entries⟩) =>
      simp only [anonymous, descend, NameTable.get?, find_anonymousAll]
      cases NameTable.find name entries with
      | none => rfl
      | some member => exact ih member
    | .item _ none | .number _ | .truth _ | .value _ | .text _ | .formula _ =>
      simp [anonymous, descend]

theorem cases_of_anonymous {binding copy : Binding} (h : copy.anonymous = binding.anonymous) :
    (∃ f g, binding = .formula f ∧ copy = .formula g ∧ g.expression = f.expression) ∨
      (∃ v members others, binding = .item v members ∧ copy = .item v others) ∨ copy = binding := by
  rcases binding with x | b | v | s | ⟨v, _ | ⟨entries⟩⟩ | f <;>
    rcases copy with y | c | w | t | ⟨w, _ | ⟨others⟩⟩ | g <;>
    simp_all [anonymous]

end Binding

def Context.anonymous (context : Context) : Context :=
  ⟨Binding.anonymousAll context.entries⟩

namespace Scope

/-- Whether two scopes bind the same but for the identities of formulas: where one has a formula
that is shared, the other one may have copies of it. -/
def Copies (scope other : Scope) : Prop :=
  scope.layers.map Context.anonymous = other.layers.map Context.anonymous

variable {scope other : Scope} {formula copy reached : Formula} {path : Path} {name : String}

theorem Copies.refl (scope : Scope) : Copies scope scope := rfl

theorem Copies.symm (h : Copies scope other) : Copies other scope := Eq.symm h

theorem copies_ofLayers {layers others : List Context}
    (h : layers.map Context.anonymous = others.map Context.anonymous) :
    Copies (ofLayers layers) (ofLayers others) :=
  congrArg (Context.anonymous constants :: ·) h

private theorem get?_anonymous (scope : Scope) (name : String) :
    (scope.get? name).map Binding.anonymous =
      (scope.layers.map Context.anonymous).reverse.findSome? (·.get? name) := by
  rw [get?, ← List.map_reverse, List.findSome?_map]
  induction scope.layers.reverse with
  | nil => rfl
  | cons context rest ih =>
    have hc : (context.anonymous : Context).get? name =
        (context.get? name).map Binding.anonymous :=
      Binding.find_anonymousAll name context.entries
    rw [List.findSome?_cons, List.findSome?_cons, Function.comp_apply, hc]
    cases context.get? name with
    | none => exact ih
    | some binding => rfl

theorem Copies.resolve (h : Copies scope other) (path : Path) :
    (scope.resolve path).map Binding.anonymous = (other.resolve path).map Binding.anonymous := by
  cases path with
  | nil => rfl
  | cons root rest =>
    have hroot :
        (scope.get? root).map Binding.anonymous = (other.get? root).map Binding.anonymous := by
      rw [get?_anonymous, get?_anonymous, h]
    simp only [Scope.resolve, Option.map_bind, Function.comp_def, ← Binding.descend_anonymous]
    rw [← Function.comp_def (fun binding : Binding => binding.descend rest) Binding.anonymous,
      ← Option.bind_map, ← Option.bind_map, hroot]

theorem Copies.resolve_none (h : Copies scope other) (hr : scope.resolve path = none) :
    other.resolve path = none := by
  have he := h.resolve path
  rw [hr] at he
  exact Option.map_eq_none_iff.mp he.symm

theorem Copies.resolve_some {binding : Binding} (h : Copies scope other)
    (hr : scope.resolve path = some binding) :
    ∃ copy, other.resolve path = some copy ∧ copy.anonymous = binding.anonymous := by
  have he := h.resolve path
  rw [hr] at he
  exact Option.map_eq_some_iff.mp he.symm

theorem Copies.resolve_formula (h : Copies scope other)
    (hr : scope.resolve path = some (.formula formula)) :
    ∃ copy, other.resolve path = some (.formula copy) ∧ copy.expression = formula.expression := by
  obtain ⟨binding, hb, he⟩ := h.resolve_some hr
  rcases Binding.cases_of_anonymous he with ⟨_, copy, ⟨⟩, rfl, hc⟩ | ⟨_, _, _, ⟨⟩, _⟩ | rfl
  · exact ⟨copy, hb, hc⟩
  · exact ⟨formula, hb, rfl⟩

theorem Copies.refers (h : Copies scope other) (hc : copy.expression = formula.expression)
    (hr : scope.Refers formula reached) :
    ∃ another, other.Refers copy another ∧ another.expression = reached.expression := by
  obtain ⟨path, hp, hr⟩ := hr
  obtain ⟨another, ha, he⟩ := h.resolve_formula hr
  refine ⟨another, ⟨path, ?_, ha⟩, he⟩
  rw [Formula.program, hc]
  exact hp

theorem Copies.reaches (h : Copies scope other) (hc : copy.expression = formula.expression)
    (hr : scope.Reaches formula reached) :
    ∃ another, other.Reaches copy another ∧ another.expression = reached.expression := by
  induction hr with
  | refl => exact ⟨copy, .refl, hc⟩
  | tail _ hlast ih =>
    obtain ⟨another, hreach, he⟩ := ih
    obtain ⟨next, hnext, hn⟩ := h.refers he hlast
    exact ⟨next, hreach.tail hnext, hn⟩

theorem Copies.walk (h : Copies scope other) (hc : copy.expression = formula.expression)
    {visits : List Formula} (hw : scope.Walk formula visits) :
    ∃ others, other.Walk copy others ∧ others.length = visits.length := by
  induction visits generalizing formula copy with
  | nil => exact ⟨[], List.isChain_singleton copy, rfl⟩
  | cons visit rest ih =>
    obtain ⟨hr, hw⟩ := walk_cons.mp hw
    obtain ⟨another, ha, he⟩ := h.refers hc hr
    obtain ⟨others, ho, hl⟩ := ih he hw
    exact ⟨another :: others, walk_cons.mpr ⟨ha, ho⟩, congrArg (· + 1) hl⟩

theorem Copies.misses (h : Copies scope other) (hc : copy.expression = formula.expression)
    (hm : scope.Misses formula name) : other.Misses copy name := by
  obtain ⟨reached, hreach, path, hp, hr, hn⟩ := hm
  obtain ⟨another, ha, he⟩ := h.reaches hc hreach
  refine ⟨another, ha, path, ?_, h.resolve_none hr, hn⟩
  rw [Formula.program, he]
  exact hp

theorem Copies.misses_iff (h : Copies scope other) (hc : copy.expression = formula.expression) :
    other.Misses copy name ↔ scope.Misses formula name :=
  ⟨h.symm.misses hc.symm, h.misses hc⟩

end Scope

end VectorFormula
