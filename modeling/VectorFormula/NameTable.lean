/-!
Tables keyed by name. A name has at most one entry, and entries keep the order in which their names
first came; nothing but the listing of the names depends on that order.
-/
namespace VectorFormula

/-- Entries under names, each name at most once. -/
structure NameTable (α : Type) where
  entries : List (String × α) := []

namespace NameTable

variable {α : Type}

def find (name : String) : List (String × α) → Option α
  | [] => none
  | (other, entry) :: rest => if other = name then some entry else find name rest

def get? (table : NameTable α) (name : String) : Option α :=
  find name table.entries

def contains (table : NameTable α) (name : String) : Bool :=
  (table.get? name).isSome

def put (name : String) (entry : α) : List (String × α) → List (String × α)
  | [] => [(name, entry)]
  | (other, old) :: rest =>
    if other = name then (name, entry) :: rest else (other, old) :: put name entry rest

def insert (table : NameTable α) (name : String) (entry : α) : NameTable α :=
  ⟨put name entry table.entries⟩

def erase (table : NameTable α) (name : String) : NameTable α :=
  ⟨table.entries.filter (·.1 ≠ name)⟩

/-- Enters several names in order, so that the last entry of a name stays. -/
def insertAll (table : NameTable α) (entries : List (String × α)) : NameTable α :=
  entries.foldl (fun table entry => table.insert entry.1 entry.2) table

def ofList (entries : List (String × α)) : NameTable α :=
  (⟨[]⟩ : NameTable α).insertAll entries

def size (table : NameTable α) : Nat :=
  table.entries.length

def names (table : NameTable α) : List String :=
  table.entries.map (·.1)

@[simp] theorem get?_empty (name : String) : (⟨[]⟩ : NameTable α).get? name = none := rfl

private theorem find_put (name other : String) (entry : α) (entries : List (String × α)) :
    find other (put name entry entries) =
      if other = name then some entry else find other entries := by
  induction entries with
  | nil => simp [put, find, eq_comm]
  | cons head rest ih =>
    obtain ⟨key, old⟩ := head
    by_cases hk : key = name
    · subst hk
      by_cases h : key = other <;> simp [put, find, h, Ne.symm]
    · by_cases h : key = other
      · subst h; simp [put, find, hk]
      · simp [put, find, hk, h, ih]

theorem get?_insert (table : NameTable α) (name other : String) (entry : α) :
    (table.insert name entry).get? other = if other = name then some entry else table.get? other :=
  find_put name other entry table.entries

theorem find_append (name : String) (entries others : List (String × α)) :
    find name (entries ++ others) = (find name entries).or (find name others) := by
  induction entries with
  | nil => rfl
  | cons entry rest ih =>
    simp only [List.cons_append, find]
    split
    · rfl
    · exact ih

theorem get?_insertAll (table : NameTable α) (entries : List (String × α)) (name : String) :
    (table.insertAll entries).get? name = (find name entries.reverse).or (table.get? name) := by
  induction entries generalizing table with
  | nil => rfl
  | cons entry rest ih =>
    have hrest := ih (table.insert entry.1 entry.2)
    rw [get?_insert] at hrest
    rw [List.reverse_cons, find_append, Option.or_assoc]
    simp only [find]
    by_cases h : entry.1 = name
    · rw [if_pos h.symm] at hrest
      rw [if_pos h]
      exact hrest
    · rw [if_neg (Ne.symm h)] at hrest
      rw [if_neg h]
      exact hrest

theorem find_map (names : List String) (entry : α) (name : String) :
    find name (names.map (·, entry)) = if name ∈ names then some entry else none := by
  induction names with
  | nil => rfl
  | cons first rest ih =>
    simp only [List.map_cons, find, ih, List.mem_cons, eq_comm (a := name)]
    by_cases h : first = name <;> simp [h]

private theorem find_filter (name other : String) (entries : List (String × α)) :
    find other (entries.filter (·.1 ≠ name)) =
      if other = name then none else find other entries := by
  induction entries with
  | nil => simp [find]
  | cons head rest ih =>
    obtain ⟨key, old⟩ := head
    by_cases hk : key = name
    · subst hk
      by_cases h : key = other
      · subst h; simpa [find] using ih
      · simpa [find, h, Ne.symm h] using ih
    · by_cases h : key = other
      · subst h; simp [find, hk]
      · simpa [find, hk, h] using ih

theorem get?_erase (table : NameTable α) (name other : String) :
    (table.erase name).get? other = if other = name then none else table.get? other :=
  find_filter name other table.entries

private theorem mem_of_find {name : String} {entry : α} {entries : List (String × α)}
    (h : find name entries = some entry) : (name, entry) ∈ entries := by
  induction entries with
  | nil => simp [find] at h
  | cons head rest ih =>
    obtain ⟨key, old⟩ := head
    unfold find at h
    split at h
    · rename_i hk; subst hk; cases h; exact List.mem_cons_self
    · exact List.mem_cons_of_mem _ (ih h)

theorem find_eq_some_iff {name : String} {entry : α} {entries : List (String × α)}
    (h : (entries.map (·.1)).Nodup) : find name entries = some entry ↔ (name, entry) ∈ entries := by
  refine ⟨mem_of_find, fun hm => ?_⟩
  induction entries with
  | nil => cases hm
  | cons head rest ih =>
    obtain ⟨hn, hrest⟩ := List.nodup_cons.mp h
    rw [find]
    rcases List.mem_cons.mp hm with rfl | hm
    · rw [if_pos rfl]
    · have hne : head.1 ≠ name := by
        rintro rfl
        exact hn (List.mem_map.mpr ⟨_, hm, rfl⟩)
      rw [if_neg hne, ih hrest hm]

private theorem mem_of_mem_put {name : String} {entry : α} {found : String × α}
    {entries : List (String × α)} (h : found ∈ put name entry entries) :
    found = (name, entry) ∨ found ∈ entries := by
  induction entries with
  | nil => exact .inl (List.mem_singleton.mp h)
  | cons head rest ih =>
    obtain ⟨key, old⟩ := head
    unfold put at h
    split at h
    · exact (List.mem_cons.mp h).imp_right (List.mem_cons_of_mem _)
    · rcases List.mem_cons.mp h with rfl | h
      · exact .inr List.mem_cons_self
      · exact (ih h).imp_right (List.mem_cons_of_mem _)

theorem mem_of_mem_insertAll {table : NameTable α} {entries : List (String × α)}
    {found : String × α} (h : found ∈ (table.insertAll entries).entries) :
    found ∈ entries ∨ found ∈ table.entries := by
  induction entries generalizing table with
  | nil => exact .inr h
  | cons entry rest ih =>
    rcases ih h with h | h
    · exact .inl (List.mem_cons_of_mem _ h)
    · rcases mem_of_mem_put h with rfl | h
      · exact .inl List.mem_cons_self
      · exact .inr h

theorem mem_entries_of_get? {table : NameTable α} {name : String} {entry : α}
    (h : table.get? name = some entry) : (name, entry) ∈ table.entries :=
  mem_of_find h

end NameTable

end VectorFormula
