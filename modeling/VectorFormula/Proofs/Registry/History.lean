import Mathlib
import VectorFormula.Registry
/-!
Registries and their histories. What a registry finds is decided by the registrations that led to it:
of the functions registered under a name, the last one of each arity is kept (`lookup_ofHistory`).
-/
namespace VectorFormula.Registry

/-- The functions under a name after another one is entered, which takes the place of the one of its
arity. -/
def enter (functions : List Function) (function : Function) : List Function :=
  functions.filter (·.arity ≠ function.arity) ++ [function]

theorem get?_register (registry : Registry) (name : String) (function : Function) (key : String) :
    (registry.register name function).functions.get? key =
      if key = Text.lowercase name then
        some (enter ((registry.functions.get? key).getD []) function)
      else registry.functions.get? key := by
  rw [register, NameTable.get?_insert]
  split
  · rename_i h
    rw [h]
    rfl
  · rfl

/-- The registry that a history of registrations leads to, the earliest first. -/
def ofHistory (history : List (String × Function)) : Registry :=
  history.foldl (fun registry entry => registry.register entry.1 entry.2) empty

/-- The functions that a history registers under a name, the earliest first. -/
def registered (history : List (String × Function)) (name : String) : List Function :=
  (history.filter fun entry => Text.lowercase entry.1 = Text.lowercase name).map (·.2)

def kept (functions : List Function) : List Function :=
  functions.foldl enter []

def last? (functions : List Function) (arity : Arity) : Option Function :=
  functions.reverse.find? (·.arity = arity)

section

variable {functions : List Function} {arity : Arity}

theorem find?_enter (functions : List Function) (function : Function) (arity : Arity) :
    (enter functions function).find? (·.arity = arity) =
      if function.arity = arity then some function else functions.find? (·.arity = arity) := by
  rw [enter, List.find?_append]
  by_cases h : function.arity = arity
  · have hnone : (functions.filter (·.arity ≠ function.arity)).find? (·.arity = arity) = none := by
      simp [h]
    rw [hnone]
    simp [h]
  · have hother : (functions.filter (·.arity ≠ function.arity)).find? (·.arity = arity) =
        functions.find? (·.arity = arity) := by
      rw [List.find?_filter]
      congr 1
      funext other
      by_cases ho : other.arity = arity <;> simp [ho, Ne.symm h]
    rw [hother]
    simp [h]

theorem nodup_enter (h : (functions.map Function.arity).Nodup) (function : Function) :
    ((enter functions function).map Function.arity).Nodup := by
  rw [enter, List.map_append, List.map_singleton, List.nodup_append]
  refine ⟨h.sublist (List.filter_sublist.map Function.arity), List.nodup_singleton _, ?_⟩
  rintro _ ha _ hb rfl
  obtain ⟨other, hm, he⟩ := List.mem_map.mp ha
  simp_all

@[simp] theorem kept_append_singleton (functions : List Function) (function : Function) :
    kept (functions ++ [function]) = enter (kept functions) function := by
  simp [kept]

theorem find?_kept (functions : List Function) (arity : Arity) :
    (kept functions).find? (·.arity = arity) = last? functions arity := by
  induction functions using List.reverseRecOn with
  | nil => rfl
  | append_singleton functions function ih =>
    rw [kept_append_singleton, find?_enter, ih]
    by_cases h : function.arity = arity <;> simp [last?, h]

theorem nodup_kept (functions : List Function) : ((kept functions).map Function.arity).Nodup := by
  induction functions using List.reverseRecOn with
  | nil => exact List.nodup_nil
  | append_singleton functions function ih =>
    rw [kept_append_singleton]
    exact nodup_enter ih function

theorem last?_eq_none :
    last? functions arity = none ↔ ∀ function ∈ functions, function.arity ≠ arity := by
  simp [last?]

theorem exists_mem_kept :
    (∃ function ∈ kept functions, function.arity = arity) ↔
      ∃ function ∈ functions, function.arity = arity := by
  have h : (∀ function ∈ kept functions, function.arity ≠ arity) ↔
      ∀ function ∈ functions, function.arity ≠ arity := by
    rw [← @last?_eq_none functions, ← find?_kept, List.find?_eq_none]
    simp
  simpa using not_congr h

theorem mem_fixedArities {count : Nat} :
    count ∈ fixedArities functions ↔ ∃ function ∈ functions, function.arity = .exact count := by
  rw [fixedArities, List.mem_mergeSort, List.mem_filterMap]
  refine exists_congr fun function => and_congr_right fun _ => ?_
  cases function.arity <;> simp

theorem pairwise_fixedArities (h : (functions.map Function.arity).Nodup) :
    (fixedArities functions).Pairwise (· < ·) := by
  have hne : (fixedArities functions).Nodup := by
    rw [fixedArities, (List.mergeSort_perm _ _).nodup_iff, List.Nodup, List.pairwise_filterMap]
    refine (List.pairwise_map.mp h).imp ?_
    intro function other ha count hc found hf
    rintro rfl
    cases hfunction : function.arity <;> cases hother : other.arity <;> simp_all
  have hle : (fixedArities functions).Pairwise (· ≤ ·) := by
    have hsorted := @List.pairwise_mergeSort Nat (fun a b => decide (a ≤ b))
      (by simpa using fun a b c => Nat.le_trans) (by simpa using Nat.le_total)
    simpa only [fixedArities, decide_eq_true_eq] using hsorted _
  exact (hle.and hne).imp fun h => Nat.lt_of_le_of_ne h.1 h.2

end

/-- The functions that stand under a name are those that are left of the ones registered. -/
theorem get?_ofHistory (history : List (String × Function)) (name : String) :
    (ofHistory history).functions.get? (Text.lowercase name) =
      if (registered history name).isEmpty then none
      else some (kept (registered history name)) := by
  induction history using List.reverseRecOn with
  | nil => rfl
  | append_singleton history entry ih =>
    have hlast : ofHistory (history ++ [entry]) = (ofHistory history).register entry.1 entry.2 := by
      simp [ofHistory]
    rw [hlast, get?_register, ih]
    by_cases h : Text.lowercase entry.1 = Text.lowercase name
    · have hr : registered (history ++ [entry]) name = registered history name ++ [entry.2] := by
        simp [registered, h]
      rw [if_pos h.symm, hr, kept_append_singleton]
      cases registered history name <;> rfl
    · have hr : registered (history ++ [entry]) name = registered history name := by
        simp [registered, h]
      rw [if_neg (Ne.symm h), hr]

section

variable {history : List (String × Function)} {name : String}

theorem contains_ofHistory : (ofHistory history).contains name = true ↔
    ∃ entry ∈ history, Text.lowercase entry.1 = Text.lowercase name := by
  have hr : registered history name ≠ [] ↔
      ∃ entry ∈ history, Text.lowercase entry.1 = Text.lowercase name := by
    simp [registered, List.filter_eq_nil_iff]
  rw [contains, NameTable.contains, get?_ofHistory, ← hr]
  split <;> simp_all

theorem lookup_of_unregistered (h : registered history name = []) (arity : Nat) :
    (ofHistory history).lookup name arity = .error (.unknownFunction name arity) := by
  simp [lookup, get?_ofHistory, h]

theorem lookup_of_registered (h : registered history name ≠ []) (arity : Nat) :
    (ofHistory history).lookup name arity =
      match (last? (registered history name) (.exact arity)).or
        (last? (registered history name) .variadic) with
      | some function => .ok function
      | none => .error (.arityMismatch name arity (fixedArities (kept (registered history name)))) := by
  have hselect : select (kept (registered history name)) arity =
      (last? (registered history name) (.exact arity)).or
        (last? (registered history name) .variadic) := by
    simp only [select, Option.orElse_eq_orElse, Option.orElse_eq_or, find?_kept]
  have hget : (ofHistory history).functions.get? (Text.lowercase name) =
      some (kept (registered history name)) := by
    rw [get?_ofHistory, if_neg (mt List.isEmpty_iff.mp h)]
  cases hl : (last? (registered history name) (.exact arity)).or
      (last? (registered history name) .variadic) with
  | none => simp only [lookup, hget, hselect, hl]
  | some function => simp only [lookup, hget, hselect, hl]

end

/-- What is found under a name for a number of operands is decided by the functions registered under
it: the last one that takes just that many, or else the last one that takes any number. If there is
neither, the numbers of operands that would do are told in increasing order; and the name is unknown
only if nothing was registered. No name has two functions of one arity. -/
theorem lookup_ofHistory (history : List (String × Function)) (name : String) (arity : Nat) :
    let registry := ofHistory history
    let functions := registered history name
    (registry.lookup name arity = .error (.unknownFunction name arity) ↔ functions = []) ∧
    (∀ function, last? functions (.exact arity) = some function →
      registry.lookup name arity = .ok function) ∧
    (∀ function, last? functions (.exact arity) = none →
      last? functions .variadic = some function → registry.lookup name arity = .ok function) ∧
    (functions ≠ [] → last? functions (.exact arity) = none → last? functions .variadic = none →
      ∃ accepted, registry.lookup name arity = .error (.arityMismatch name arity accepted) ∧
        accepted.Pairwise (· < ·) ∧
        ∀ count, count ∈ accepted ↔ ∃ function ∈ functions, function.arity = .exact count) ∧
    ∀ held, registry.functions.get? (Text.lowercase name) = some held →
      (held.map Function.arity).Nodup := by
  intro registry functions
  have hne {found : Arity} {function : Function} (h : last? functions found = some function) :
      functions ≠ [] := by
    rintro hnil
    rw [hnil] at h
    cases h
  refine ⟨⟨fun h => ?_, fun h => lookup_of_unregistered h arity⟩, ?_, ?_, ?_, ?_⟩
  · by_contra hr
    rw [lookup_of_registered hr] at h
    split at h <;> cases h
  · intro function hexact
    rw [lookup_of_registered (hne hexact), hexact]
    rfl
  · intro function hexact hvariadic
    rw [lookup_of_registered (hne hvariadic), hexact, hvariadic]
    rfl
  · intro hr hexact hvariadic
    refine ⟨fixedArities (kept functions), ?_, pairwise_fixedArities (nodup_kept functions), ?_⟩
    · rw [lookup_of_registered hr, hexact, hvariadic]
      rfl
    · intro count
      rw [mem_fixedArities, exists_mem_kept]
  · intro held hheld
    rw [get?_ofHistory] at hheld
    split at hheld <;> cases hheld
    exact nodup_kept functions

/-- Two functions of two operands under names that differ in case, and one of any number of operands
between them: the later one of two operands is found, and the other one for any other number. -/
theorem lookup_ofHistory_replaced :
    let history : List (String × Function) :=
      [("Total", .binary Function.plus), ("total", .variadic Function.sum),
        ("TOTAL", .binary Function.minus), ("rest", .unary Function.negate)]
    (ofHistory history).lookup "total" 2 = .ok (.binary Function.minus) ∧
      (ofHistory history).lookup "Total" 3 = .ok (.variadic Function.sum) ∧
      ∃ accepted, (ofHistory history).lookup "Rest" 3 = .error (.arityMismatch "Rest" 3 accepted) ∧
        accepted.Pairwise (· < ·) := by
  intro history
  let total : List Function :=
    [.binary Function.plus, .variadic Function.sum, .binary Function.minus]
  have htotal : registered history "total" = total := by cbv
  have hcapital : registered history "Total" = total := by cbv
  have hrest : registered history "Rest" = [.unary Function.negate] := by cbv
  obtain ⟨-, hexact, -⟩ := lookup_ofHistory history "total" 2
  obtain ⟨-, -, hvariadic, -⟩ := lookup_ofHistory history "Total" 3
  obtain ⟨-, -, -, hmismatch, -⟩ := lookup_ofHistory history "Rest" 3
  refine ⟨hexact _ (by rw [htotal]; rfl), hvariadic _ (by rw [hcapital]; rfl)
    (by rw [hcapital]; rfl), ?_⟩
  obtain ⟨accepted, he, hp, -⟩ := hmismatch (by rw [hrest]; exact List.cons_ne_nil _ _)
    (by rw [hrest]; rfl) (by rw [hrest]; rfl)
  exact ⟨accepted, he, hp⟩

end VectorFormula.Registry
