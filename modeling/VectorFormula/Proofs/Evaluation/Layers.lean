import Mathlib.Data.List.Forall2
import VectorFormula.Proofs.Evaluation.Relevance
/-!
Layers that stand for each other. Nothing is seen of layers but what names are bound to in them
(`interchangeable_of_get?`).
-/
namespace VectorFormula

namespace NameTable

variable {α : Type} {table : NameTable α} {entries others : List (String × α)}

/-- Whether a list holds the entries of a table, in whatever order they come. -/
structure Lists (table : NameTable α) (entries : List (String × α)) : Prop where
  nodup : (entries.map (·.1)).Nodup
  mem_iff (name : String) (entry : α) : (name, entry) ∈ entries ↔ table.get? name = some entry

theorem lists_entries (h : (table.entries.map (·.1)).Nodup) : table.Lists table.entries :=
  ⟨h, fun _ _ => (find_eq_some_iff h).symm⟩

theorem Lists.perm (h : table.Lists entries) (hp : others.Perm entries) : table.Lists others where
  nodup := (hp.map _).nodup_iff.mpr h.nodup
  mem_iff name entry := hp.mem_iff.trans (h.mem_iff name entry)

theorem Lists.find (h : table.Lists entries) (name : String) :
    NameTable.find name entries = table.get? name :=
  Option.ext fun entry => (find_eq_some_iff h.nodup).trans (h.mem_iff name entry)

theorem find_reverse_flatten {tables : List (NameTable α)} {listings : List (List (String × α))}
    (h : List.Forall₂ Lists tables listings) (name : String) :
    NameTable.find name listings.flatten.reverse = tables.reverse.findSome? (·.get? name) := by
  induction h with
  | nil => rfl
  | @cons table entries _ _ hfirst _ ih =>
    rw [List.flatten_cons, List.reverse_append, find_append, ih,
      (hfirst.perm (List.reverse_perm entries)).find, List.reverse_cons, List.findSome?_append,
      List.findSome?_singleton]

end NameTable

namespace Evaluation

variable {scope other : Scope} {options : Options}

private theorem load_eq (h : ∀ path, other.resolve path = scope.resolve path) :
    load other options = load scope options := by
  funext chain enter path
  simp only [load, h]

private theorem nested_eq (h : ∀ path, other.resolve path = scope.resolve path) (depth : Nat) :
    nested other options depth = nested scope options depth := by
  induction depth with
  | zero => rfl
  | succ depth ih =>
    funext chain path formula
    simp only [nested, load_eq h, ih]

/-- All that an evaluation sees of a scope is where dotted names lead. -/
theorem within_eq (h : ∀ path, other.resolve path = scope.resolve path) :
    within other options = within scope options := by
  funext depth chain formula
  simp only [within, reading, load_eq h, nested_eq h]

end Evaluation

namespace Context

/-- Whether layers may stand in place of others: every dotted name leads to the same, and every
formula is evaluated alike, with the same reports, and misses the same names. -/
structure Interchangeable (layers others : List Context) : Prop where
  resolve (path : Path) : (Scope.ofLayers others).resolve path = (Scope.ofLayers layers).resolve path
  evaluate (formula : Formula) (options : Options) :
    formula.evaluate others options = formula.evaluate layers options
  unknowns (formula : Formula) : formula.unknowns others = formula.unknowns layers

variable {layers others : List Context}

theorem interchangeable_of_get?
    (h : ∀ name, (Scope.ofLayers others).get? name = (Scope.ofLayers layers).get? name) :
    Interchangeable layers others := by
  have hresolve (path : Path) :
      (Scope.ofLayers others).resolve path = (Scope.ofLayers layers).resolve path :=
    Scope.resolve_congr fun root _ => h root
  have hunknowns (formula : Formula) :
      (Scope.ofLayers others).unknowns formula = (Scope.ofLayers layers).unknowns formula :=
    Scope.Agrees.unknowns fun _ _ path _ => hresolve path
  refine ⟨hresolve, fun formula options => ?_, hunknowns⟩
  simp only [Formula.evaluate, hunknowns, Evaluation.within_eq hresolve]

end Context

namespace Scope

variable {below above layers : List Context} {a b : Context} {entries : List (String × Binding)}
  {name : String}

theorem get?_merged (h : b.Lists entries) (name : String) :
    (ofLayers (below ++ a.insertAll entries :: above)).get? name =
      (ofLayers (below ++ a :: b :: above)).get? name := by
  simp only [get?_ofLayers, List.reverse_append, List.reverse_cons, List.findSome?_append,
    List.findSome?_singleton, NameTable.get?_insertAll, (h.perm (List.reverse_perm entries)).find,
    Option.or_assoc]

theorem get?_swapped (h : a.get? name = none ∨ b.get? name = none) :
    (ofLayers (below ++ b :: a :: above)).get? name =
      (ofLayers (below ++ a :: b :: above)).get? name := by
  simp only [get?_ofLayers, List.reverse_append, List.reverse_cons, List.findSome?_append,
    List.findSome?_singleton, Option.or_assoc]
  rcases h with h | h <;> simp [h]

theorem get?_flattened {listings : List (List (String × Binding))}
    (h : List.Forall₂ NameTable.Lists (constants :: layers) listings) (name : String) :
    (NameTable.ofList listings.flatten).get? name = (ofLayers layers).get? name := by
  rw [NameTable.ofList, NameTable.get?_insertAll, NameTable.find_reverse_flatten h,
    NameTable.get?_empty, Option.or_none]
  rfl

theorem get?_eq_some_iff {binding : Binding} : (ofLayers layers).get? name = some binding ↔
    (∃ below layer above, layers = below ++ layer :: above ∧ layer.get? name = some binding ∧
      ∀ other ∈ above, other.get? name = none) ∨
    (∀ layer ∈ layers, layer.get? name = none) ∧ constants.get? name = some binding := by
  rw [get?_ofLayers, Option.or_eq_some_iff, List.findSome?_eq_some_iff, List.findSome?_eq_none_iff]
  simp only [List.mem_reverse]
  refine or_congr_left ⟨?_, ?_⟩
  · rintro ⟨above, layer, below, hl, hb, hn⟩
    refine ⟨below.reverse, layer, above.reverse, ?_, hb, ?_⟩
    · simpa using congrArg List.reverse hl
    · simpa using hn
  · rintro ⟨below, layer, above, rfl, hb, hn⟩
    exact ⟨above.reverse, layer, below.reverse, by simp, hb, by simpa using hn⟩

end Scope

namespace Context

/-- Layers can be merged and, where they have no name in common, swapped. A layer with the bindings of
the next one entered, in any order, may stand in place of both, and two neighbours that bind no common
name in place of each other. Nor does the order inside layers matter: the bindings of all layers,
entered one after another over the constants, make up one layer that may stand in place of them, and
what it binds a name to is what the last layer with the name does, or the constant. -/
theorem interchangeable_layers (below above : List Context) (a b : Context) :
    (∀ entries, b.Lists entries →
      Interchangeable (below ++ a :: b :: above) (below ++ a.insertAll entries :: above)) ∧
    ((∀ name, a.get? name = none ∨ b.get? name = none) →
      Interchangeable (below ++ a :: b :: above) (below ++ b :: a :: above)) ∧
    ∀ layers listings, List.Forall₂ NameTable.Lists (constants :: layers) listings →
      Interchangeable layers [.ofList listings.flatten] ∧
      ∀ name binding, (NameTable.ofList listings.flatten).get? name = some binding ↔
        (∃ lower layer upper, layers = lower ++ layer :: upper ∧ layer.get? name = some binding ∧
          ∀ other ∈ upper, other.get? name = none) ∨
        (∀ layer ∈ layers, layer.get? name = none) ∧ constants.get? name = some binding := by
  refine ⟨fun entries h => interchangeable_of_get? (Scope.get?_merged h),
    fun h => interchangeable_of_get? fun name => Scope.get?_swapped (h name), ?_⟩
  intro layers listings h
  refine ⟨interchangeable_of_get? fun name => ?_, fun name binding => ?_⟩
  · -- The constants are under the layers and in the one layer, where they are seen first.
    have hflat := Scope.get?_flattened h name
    rw [Scope.get?_ofLayers, List.reverse_singleton, List.findSome?_singleton, hflat,
      Scope.get?_ofLayers, Option.or_assoc, Option.or_self]
  · rw [Scope.get?_flattened h, Scope.get?_eq_some_iff]

/-- A layer over another one that hides a name of it and a constant, and one beside them. -/
theorem interchangeable_layers_override :
    let base : Context := ⟨[("x", .number 1.0), ("y", .number 10.0)]⟩
    let upper : Context := ⟨[("x", .number 2.0), ("pi", .number 3.0)]⟩
    let beside : Context := ⟨[("z", .formula ⟨1, "x", [.load ["x"]]⟩)]⟩
    let listings := [constants.entries.reverse, base.entries, upper.entries.reverse, beside.entries]
    let formula : Formula :=
      ⟨0, "[z, y, pi]", [.load ["z"], .load ["y"], .load ["pi"], .vector 3]⟩
    upper.Lists upper.entries.reverse ∧ (∀ name, upper.get? name = none ∨ beside.get? name = none) ∧
      List.Forall₂ NameTable.Lists [constants, base, upper, beside] listings ∧
      ∀ layers ∈ [[base.insertAll upper.entries.reverse, beside], [base, beside, upper],
          [.ofList listings.flatten]],
        (formula.evaluate layers {}).result = .ok ⟨[2.0, 10.0, 3.0]⟩ := by
  intro base upper beside listings formula
  have hupper : upper.Lists upper.entries.reverse :=
    (NameTable.lists_entries (by decide)).perm (List.reverse_perm _)
  have hbeside (name : String) : upper.get? name = none ∨ beside.get? name = none := by
    by_cases h : "z" = name
    · subst h
      exact .inl rfl
    · exact .inr (by simp [beside, NameTable.get?, NameTable.find, h])
  have hlistings : List.Forall₂ NameTable.Lists [constants, base, upper, beside] listings :=
    .cons ((NameTable.lists_entries (by decide)).perm (List.reverse_perm _)) <|
      .cons (NameTable.lists_entries (by decide)) <| .cons hupper <|
        .cons (NameTable.lists_entries (by decide)) .nil
  have hresult : (formula.evaluate [base, upper, beside] {}).result = .ok ⟨[2.0, 10.0, 3.0]⟩ := rfl
  have hmerged := (interchangeable_layers [] [beside] base upper).1 _ hupper
  have hswapped := (interchangeable_layers [base] [] upper beside).2.1 hbeside
  have hflat := ((interchangeable_layers [] [] base upper).2.2 _ _ hlistings).1
  refine ⟨hupper, hbeside, hlistings, ?_⟩
  simp only [List.forall_mem_cons, List.not_mem_nil, false_implies, implies_true, and_true]
  exact ⟨(congrArg Run.result (hmerged.evaluate formula {})).trans hresult,
    (congrArg Run.result (hswapped.evaluate formula {})).trans hresult,
    (congrArg Run.result (hflat.evaluate formula {})).trans hresult⟩

end Context

end VectorFormula
