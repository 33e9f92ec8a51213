import VectorFormula.Context
/-!
Scopes: layers of contexts over the constants. A layer hides what the layers under it bind to the
same name; the members of an item are reached through its name.
-/
namespace VectorFormula

def constants : Context := .ofList [
  ("pi", .number 3.141592653589793),
  ("PI", .number 3.141592653589793),
  ("e", .number 2.718281828459045),
  ("E", .number 2.718281828459045)]

/-- Contexts on top of each other, the lowest first. -/
structure Scope where
  layers : List Context

namespace Scope

def ofLayers (layers : List Context) : Scope := ⟨constants :: layers⟩

/-- What a name is bound to: the highest layer that binds it decides. -/
def get? (scope : Scope) (name : String) : Option Binding :=
  scope.layers.reverse.findSome? (·.get? name)

def resolve (scope : Scope) : Path → Option Binding
  | [] => none
  | root :: rest => (scope.get? root).bind (·.descend rest)

def formulas (scope : Scope) : List Formula :=
  scope.layers.flatMap fun context => Binding.formulasOf context.entries

theorem get?_ofLayers (layers : List Context) (name : String) :
    (ofLayers layers).get? name =
      (layers.reverse.findSome? (·.get? name)).or (constants.get? name) := by
  simp [get?, ofLayers, List.findSome?_append]

theorem mem_formulas_ofLayers {layers : List Context} {formula : Formula} :
    formula ∈ (ofLayers layers).formulas ↔
      ∃ layer ∈ layers, formula ∈ Binding.formulasOf layer.entries := by
  have hn : Binding.formulasOf constants.entries = [] := rfl
  simp [formulas, ofLayers, hn]

theorem mem_formulas_of_resolve {scope : Scope} {path : Path} {formula : Formula}
    (h : scope.resolve path = some (.formula formula)) : formula ∈ scope.formulas := by
  cases path with
  | nil => simp [resolve] at h
  | cons root rest =>
    obtain ⟨start, hr, hd⟩ := Option.bind_eq_some_iff.mp h
    obtain ⟨context, hc, hg⟩ := List.exists_of_findSome?_eq_some hr
    have hm : formula ∈ start.formulas :=
      Binding.mem_formulas_of_descend hd (by simp [Binding.formulas])
    exact List.mem_flatMap.mpr ⟨context, List.mem_reverse.mp hc,
      Binding.mem_formulasOf (NameTable.mem_entries_of_get? hg) hm⟩

end Scope

end VectorFormula
