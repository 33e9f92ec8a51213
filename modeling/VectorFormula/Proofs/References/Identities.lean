import Mathlib.Data.List.Nodup
import Mathlib.Logic.Relation
import VectorFormula.Proofs.References.Walks
import VectorFormula.Workspace
/-!
Identities tell the formulas of a workspace apart: those made so far make a record without
repetition (`Records`), and every operation adds to it (`Step.grows`).
-/
namespace VectorFormula

namespace Binding

theorem mem_formulasOf_iff {entries : List (String × Binding)} {formula : Formula} :
    formula ∈ formulasOf entries ↔ ∃ entry ∈ entries, formula ∈ entry.2.formulas := by
  induction entries with
  | nil => simp [formulasOf]
  | cons head rest ih => simp [formulasOf, ih]

theorem formulasOf_insertAll (context : Context) (entries : List (String × Binding)) :
    formulasOf (context.insertAll entries).entries ⊆
      formulasOf entries ++ formulasOf context.entries := by
  intro formula hf
  obtain ⟨entry, he, hf⟩ := mem_formulasOf_iff.mp hf
  rcases NameTable.mem_of_mem_insertAll he with he | he
  · exact List.mem_append_left _ (mem_formulasOf_iff.mpr ⟨entry, he, hf⟩)
  · exact List.mem_append_right _ (mem_formulasOf_iff.mpr ⟨entry, he, hf⟩)

theorem formulasOf_insert (context : Context) (name : String) (binding : Binding) :
    formulasOf (context.insert name binding).entries ⊆
      binding.formulas ++ formulasOf context.entries := by
  have h := formulasOf_insertAll context [(name, binding)]
  rw [formulasOf, formulasOf, List.append_nil] at h
  exact h

theorem formulasOf_erase (context : Context) (name : String) :
    formulasOf (context.erase name).entries ⊆ formulasOf context.entries := by
  intro formula hf
  obtain ⟨entry, he, hf⟩ := mem_formulasOf_iff.mp hf
  exact mem_formulasOf_iff.mpr ⟨entry, List.mem_of_mem_filter he, hf⟩

theorem formulasOf_ofList (entries : List (String × Binding)) :
    formulasOf (NameTable.ofList entries).entries ⊆ formulasOf entries := by
  have h := formulasOf_insertAll ⟨[]⟩ entries
  rwa [formulasOf, List.append_nil] at h

end Binding

namespace Workspace

/-- Whether the formulas of a workspace are among those made so far, the identity of each of which is
its place. -/
structure Records (workspace : Workspace) (made : List Formula) : Prop where
  ids : made.map (·.id) = List.range workspace.fresh
  contexts : ∀ name, Binding.formulasOf (workspace.context name).entries ⊆ made
  formulas : ∀ name formula, workspace.formulas.get? name = some formula → formula ∈ made

/-- Whether a record of a workspace goes on to one of the next workspace, with given formulas in
it. -/
def Grows (workspace next : Workspace) (formulas : List Formula) : Prop :=
  ∀ made, workspace.Records made → ∃ more, next.Records (made ++ more) ∧ formulas ⊆ made ++ more

variable {workspace middle next : Workspace} {made formulas others : List Formula}

theorem records_empty : Records {} [] :=
  ⟨rfl, fun _ => List.Subset.refl _, nofun⟩

theorem Records.distinguishes (h : workspace.Records made) {formula : Formula}
    (hf : formula ∈ made) {layers : List Context}
    (hl : ∀ layer ∈ layers, Binding.formulasOf layer.entries ⊆ made) :
    (Scope.ofLayers layers).Distinguishes formula := by
  have hmade : ∀ a ∈ formula :: (Scope.ofLayers layers).formulas, a ∈ made := by
    intro a ha
    rcases List.mem_cons.mp ha with rfl | ha
    · exact hf
    · obtain ⟨layer, hm, ha⟩ := Scope.mem_formulas_ofLayers.mp ha
      exact hl layer hm ha
  have hnodup : (made.map (·.id)).Nodup := h.ids ▸ List.nodup_range
  intro a ha b hb hid
  exact List.inj_on_of_nodup_map hnodup (hmade a ha) (hmade b hb) hid

theorem Records.setContext (h : workspace.Records made) {context : Context}
    (hc : Binding.formulasOf context.entries ⊆ made) (name : String) :
    (workspace.setContext name context).Records made := by
  refine ⟨h.ids, ?_, h.formulas⟩
  intro other
  have hget : (workspace.setContext name context).context other =
      if other = name then context else workspace.context other := by
    simp only [Workspace.context, Workspace.setContext, NameTable.get?_insert]
    split <;> rfl
  rw [hget]
  split
  · exact hc
  · exact h.contexts other

theorem Grows.refl (workspace : Workspace) : workspace.Grows workspace [] := by
  intro made h
  exact ⟨[], by rwa [List.append_nil], List.nil_subset _⟩

theorem Grows.trans (h : workspace.Grows middle formulas) (hn : middle.Grows next others) :
    workspace.Grows next (formulas ++ others) := by
  intro made hm
  obtain ⟨first, hr, hs⟩ := h made hm
  obtain ⟨second, hr', hs'⟩ := hn _ hr
  rw [List.append_assoc] at hr' hs'
  refine ⟨first ++ second, hr', List.append_subset.mpr ⟨?_, hs'⟩⟩
  rw [← List.append_assoc]
  exact List.subset_append_of_subset_left _ hs

theorem Grows.mono (h : workspace.Grows next formulas) (hs : others ⊆ formulas) :
    workspace.Grows next others := by
  intro made hm
  obtain ⟨more, hr, hf⟩ := h made hm
  exact ⟨more, hr, List.Subset.trans hs hf⟩

theorem grows_make (workspace : Workspace) (expression : Expression) :
    workspace.Grows (workspace.make expression).2 [(workspace.make expression).1] := by
  intro made h
  refine ⟨[(workspace.make expression).1], ⟨?_, ?_, ?_⟩, List.subset_append_right _ _⟩
  · rw [List.map_append, h.ids]
    exact List.range_succ.symm
  · exact fun name => List.subset_append_of_subset_left _ (h.contexts name)
  · exact fun name formula hf => List.mem_append_left _ (h.formulas name formula hf)

theorem grows_formula (workspace : Workspace) (name : String) :
    workspace.Grows (workspace.formula name).2 [(workspace.formula name).1] := by
  unfold Workspace.formula
  split
  · rename_i formula hf
    intro made h
    refine ⟨[], by rwa [List.append_nil], ?_⟩
    simpa using h.formulas name formula hf
  · exact grows_make workspace .nothing

mutual

theorem grows_bind {workspace next : Workspace} {draft : Draft} {binding : Binding}
    (h : workspace.bind draft = .ok (binding, next)) : workspace.Grows next binding.formulas := by
  match draft with
  | .number _ | .truth _ | .value _ | .text _ | .item _ none =>
    cases h
    exact .refl _
  | .item v (some drafts) =>
    rw [Workspace.bind] at h
    split at h
    · rename_i entries last hb
      cases h
      exact (grows_bindAll hb).mono (Binding.formulasOf_ofList entries)
    · cases h
  | .source source =>
    rw [Workspace.bind] at h
    split at h
    · rename_i expression he
      cases h
      exact grows_make workspace expression
    · cases h
  | .shared name =>
    rw [Workspace.bind] at h
    cases h
    exact grows_formula workspace name

theorem grows_bindAll {workspace next : Workspace} {drafts : List (String × Draft)}
    {entries : List (String × Binding)} (h : workspace.bindAll drafts = .ok (entries, next)) :
    workspace.Grows next (Binding.formulasOf entries) := by
  match drafts with
  | [] =>
    cases h
    exact .refl _
  | (name, draft) :: rest =>
    rw [Workspace.bindAll] at h
    split at h
    · cases h
    · rename_i binding middle hb
      split at h
      · cases h
      · rename_i others last ho
        cases h
        exact (grows_bind hb).trans (grows_bindAll ho)

end

/-- What a workspace goes on to in one operation. An operation that fails leaves it as it is. -/
inductive Step (workspace : Workspace) : Workspace → Prop
  | make (expression : Expression) : Step workspace (workspace.make expression).2
  | formula (name : String) : Step workspace (workspace.formula name).2
  | insert {context name : String} {draft : Draft} {old : Option Binding} {next : Workspace} :
    workspace.insert context name draft = .ok (old, next) → Step workspace next
  | remove (context name : String) : Step workspace (workspace.remove context name).2
  | extend {context : String} {drafts : List (String × Draft)} {next : Workspace} :
    workspace.extend context drafts = .ok next → Step workspace next
  | collect {context : String} {drafts : List (String × Draft)} {next : Workspace} :
    workspace.collect context drafts = .ok next → Step workspace next
  | copy (context source : String) : Step workspace (workspace.copy context source)
  | define (name : String) (expression : Expression) : Step workspace (workspace.define name expression)
  | compile {registry : Option String} {name source : String} {expression : Expression}
    {next : Workspace} :
    workspace.compile registry name source = .ok (expression, next) → Step workspace next
  | layers {drafts : List (List (String × Draft))} {contexts : List Context} {next : Workspace} :
    workspace.layers drafts = .ok (contexts, next) → Step workspace next
  | setRegistry (name : String) (registry : Registry) :
    Step workspace (workspace.setRegistry name registry)

/-- Whether operations lead from the empty workspace to a given one. -/
abbrev Reachable : Workspace → Prop :=
  Relation.ReflTransGen Step {}

theorem Grows.setContext (h : workspace.Grows next formulas) (name : String) {context : Context}
    (hc : ∀ made, next.Records made → formulas ⊆ made →
      Binding.formulasOf context.entries ⊆ made) :
    workspace.Grows (next.setContext name context) [] := by
  intro made hm
  obtain ⟨more, hr, hs⟩ := h made hm
  exact ⟨more, hr.setContext (hc _ hr hs) name, List.nil_subset _⟩

theorem grows_define (workspace : Workspace) (name : String) (expression : Expression) :
    workspace.Grows (workspace.define name expression) [] := by
  intro made hm
  obtain ⟨more, hr, hs⟩ := grows_make workspace expression made hm
  refine ⟨more, ⟨hr.ids, hr.contexts, ?_⟩, List.nil_subset _⟩
  intro other formula hf
  rw [define, NameTable.get?_insert] at hf
  split at hf
  · cases hf
    exact hs List.mem_cons_self
  · exact hr.formulas other formula hf

theorem grows_layers {drafts : List (List (String × Draft))} {contexts : List Context}
    (h : workspace.layers drafts = .ok (contexts, next)) :
    workspace.Grows next (contexts.flatMap fun context => Binding.formulasOf context.entries) := by
  induction drafts generalizing workspace contexts with
  | nil =>
    cases h
    exact .refl _
  | cons first rest ih =>
    obtain ⟨⟨entries, middle⟩, hb, h⟩ := bind_eq_ok.mp h
    obtain ⟨⟨others, last⟩, ho, h⟩ := bind_eq_ok.mp h
    cases h
    rw [List.flatMap_cons]
    exact ((grows_bindAll hb).mono (Binding.formulasOf_ofList entries)).trans (ih ho)

/-- No operation gives an identity twice. -/
theorem Step.grows (h : Step workspace next) : workspace.Grows next [] := by
  cases h with
  | make expression => exact (grows_make workspace expression).mono (List.nil_subset _)
  | formula name => exact (grows_formula workspace name).mono (List.nil_subset _)
  | @insert context name draft old next h =>
    obtain ⟨⟨binding, last⟩, hb, h⟩ := bind_eq_ok.mp h
    cases h
    apply (grows_bind hb).setContext
    intro made hm hs
    have hboth := List.append_subset.mpr ⟨hs, hm.contexts context⟩
    exact List.Subset.trans (Binding.formulasOf_insert _ name binding) hboth
  | remove context name =>
    apply (Grows.refl workspace).setContext
    intro made hm _
    exact List.Subset.trans (Binding.formulasOf_erase _ name) (hm.contexts context)
  | @extend context drafts next h =>
    obtain ⟨⟨entries, last⟩, hb, h⟩ := bind_eq_ok.mp h
    cases h
    apply (grows_bindAll hb).setContext
    intro made hm hs
    have hboth := List.append_subset.mpr ⟨hs, hm.contexts context⟩
    exact List.Subset.trans (Binding.formulasOf_insertAll _ entries) hboth
  | @collect context drafts next h =>
    obtain ⟨⟨entries, last⟩, hb, h⟩ := bind_eq_ok.mp h
    cases h
    apply (grows_bindAll hb).setContext
    intro made _ hs
    exact List.Subset.trans (Binding.formulasOf_ofList entries) hs
  | copy context source =>
    apply (Grows.refl workspace).setContext
    intro made hm _
    exact hm.contexts source
  | define name expression => exact grows_define workspace name expression
  | @compile registry name source expression next h =>
    obtain ⟨other, -, h⟩ := bind_eq_ok.mp h
    cases h
    exact grows_define workspace name expression
  | layers h => exact (grows_layers h).mono (List.nil_subset _)
  | setRegistry name registry =>
    intro made hm
    exact ⟨[], by rw [List.append_nil]; exact ⟨hm.ids, hm.contexts, hm.formulas⟩, List.nil_subset _⟩

theorem Reachable.exists_records (h : Reachable workspace) : ∃ made, workspace.Records made := by
  induction h with
  | refl => exact ⟨[], records_empty⟩
  | tail _ hs ih =>
    obtain ⟨made, hm⟩ := ih
    obtain ⟨more, hr, -⟩ := hs.grows made hm
    exact ⟨made ++ more, hr⟩

theorem Reachable.distinguishes_of_grows (h : Reachable workspace)
    (hg : workspace.Grows next formulas) {formula : Formula} (hf : formula ∈ formulas)
    {layers : List Context}
    (hl : ∀ layer ∈ layers, Binding.formulasOf layer.entries ⊆ formulas) :
    (Scope.ofLayers layers).Distinguishes formula := by
  obtain ⟨made, hm⟩ := h.exists_records
  obtain ⟨more, hr, hs⟩ := hg made hm
  exact hr.distinguishes (hs hf) fun layer hlayer => List.Subset.trans (hl layer hlayer) hs

private theorem formulasOf_subset {layers : List Context} {layer : Context} (h : layer ∈ layers) :
    Binding.formulasOf layer.entries ⊆
      layers.flatMap fun context => Binding.formulasOf context.entries :=
  fun _ hf => List.mem_flatMap.mpr ⟨layer, h, hf⟩

/-- Identities tell apart the formula of a name and those bound in contexts of the workspace. -/
theorem Reachable.contexts_distinguish (h : Reachable workspace) (names : List String)
    (name : String) :
    (Scope.ofLayers (names.map workspace.context)).Distinguishes (workspace.formula name).1 := by
  have hcontexts : workspace.Grows workspace
      ((names.map workspace.context).flatMap fun context => Binding.formulasOf context.entries) := by
    intro made hm
    refine ⟨[], by rwa [List.append_nil], ?_⟩
    intro formula hf
    obtain ⟨context, hc, hf⟩ := List.mem_flatMap.mp hf
    obtain ⟨other, -, rfl⟩ := List.mem_map.mp hc
    exact List.mem_append_left _ (hm.contexts other hf)
  refine h.distinguishes_of_grows (hcontexts.trans (grows_formula workspace name))
    (List.mem_append_right _ List.mem_cons_self) ?_
  exact fun layer hl => List.subset_append_of_subset_left _ (formulasOf_subset hl)

theorem Reachable.layers_distinguish (h : Reachable workspace)
    {drafts : List (List (String × Draft))} {layers : List Context}
    (hl : workspace.layers drafts = .ok (layers, next)) (name : String) :
    (Scope.ofLayers layers).Distinguishes (next.formula name).1 := by
  refine h.distinguishes_of_grows ((grows_layers hl).trans (grows_formula next name))
    (List.mem_append_right _ List.mem_cons_self) ?_
  exact fun layer hl => List.subset_append_of_subset_left _ (formulasOf_subset hl)

theorem Reachable.bindAll_distinguishes (h : Reachable workspace) {expression : Expression}
    {drafts : List (String × Draft)} {entries : List (String × Binding)}
    (hb : (workspace.make expression).2.bindAll drafts = .ok (entries, next)) :
    (Scope.ofLayers [.ofList entries]).Distinguishes (workspace.make expression).1 := by
  refine h.distinguishes_of_grows ((grows_make workspace expression).trans (grows_bindAll hb))
    (List.mem_append_left _ List.mem_cons_self) ?_
  refine List.forall_mem_singleton.mpr ?_
  exact List.subset_append_of_subset_right _ (Binding.formulasOf_ofList entries)

end Workspace

end VectorFormula
