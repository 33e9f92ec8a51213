import Mathlib.Algebra.GroupWithZero.Nat
import Mathlib.Algebra.Order.BigOperators.Group.List
import Mathlib.Algebra.Order.Group.Nat
import VectorFormula.Proofs.References.Walks
/-!
Searches for the names that a formula misses. A search comes to an end (`Search.acc`), and what it
has found then does not depend on the order (`Search.Run.mem_found`).
-/
namespace VectorFormula.Scope

def Lacks (scope : Scope) (formula : Formula) (name : String) : Prop :=
  ∃ path ∈ formula.program.paths, scope.resolve path = none ∧ path.head? = some name

def Misses (scope : Scope) (formula : Formula) (name : String) : Prop :=
  ∃ other, scope.Reaches formula other ∧ scope.Lacks other name

/-- A search on its way: the formulas that it has looked into, the dotted names that it has yet to
follow, and the names that it has found to be missing. -/
structure Search where
  looked : List Nat
  todo : List Path
  found : List String

namespace Search

def start (formula : Formula) : Search :=
  ⟨[formula.id], formula.program.paths, []⟩

/-- Whether a search goes on to another one by following any of its dotted names. -/
inductive Step (scope : Scope) : Search → Search → Prop
  | unresolved {looked : List Nat} {todo rest : List Path} {found : List String} {path : Path} :
    todo.Perm (path :: rest) → scope.resolve path = none →
    Step scope ⟨looked, todo, found⟩ ⟨looked, rest, path.take 1 ++ found⟩
  | enter {looked : List Nat} {todo rest : List Path} {found : List String} {path : Path}
    {formula : Formula} :
    todo.Perm (path :: rest) → scope.resolve path = some (.formula formula) →
    formula.id ∉ looked →
    Step scope ⟨looked, todo, found⟩ ⟨formula.id :: looked, formula.program.paths ++ rest, found⟩
  | again {looked : List Nat} {todo rest : List Path} {found : List String} {path : Path}
    {formula : Formula} :
    todo.Perm (path :: rest) → scope.resolve path = some (.formula formula) →
    formula.id ∈ looked → Step scope ⟨looked, todo, found⟩ ⟨looked, rest, found⟩
  | other {looked : List Nat} {todo rest : List Path} {found : List String} {path : Path}
    {binding : Binding} :
    todo.Perm (path :: rest) → scope.resolve path = some binding →
    (∀ formula, binding ≠ .formula formula) →
    Step scope ⟨looked, todo, found⟩ ⟨looked, rest, found⟩

abbrev Run (scope : Scope) : Search → Search → Prop :=
  Relation.ReflTransGen (Step scope)

structure Followed (scope : Scope) (search : Search) (path : Path) : Prop where
  found : scope.resolve path = none → ∀ name, path.head? = some name → name ∈ search.found
  looked : ∀ formula, scope.resolve path = some (.formula formula) → formula.id ∈ search.looked

/-- What a search for the names that a formula misses keeps: it finds no other names, and the dotted
names of all formulas that it has looked into are followed or will be. -/
structure Explores (scope : Scope) (root : Formula) (search : Search) : Prop where
  entered : root.id ∈ search.looked
  todo : ∀ path ∈ search.todo, ∃ reached, scope.Reaches root reached ∧ path ∈ reached.program.paths
  found : ∀ name ∈ search.found, scope.Misses root name
  followed : ∀ formula ∈ root :: scope.formulas, formula.id ∈ search.looked →
    ∀ path ∈ formula.program.paths, path ∈ search.todo ∨ Followed scope search path

variable {scope : Scope} {root : Formula} {search next last : Search} {name : String}

theorem mem_take_one {path : Path} : name ∈ path.take 1 ↔ path.head? = some name := by
  cases path <;> simp [eq_comm]

theorem Followed.mono {path : Path} (h : Followed scope search path)
    (hl : search.looked ⊆ next.looked) (hf : search.found ⊆ next.found) :
    Followed scope next path :=
  ⟨fun hr name hn => hf (h.found hr name hn), fun formula hr => hl (h.looked formula hr)⟩

theorem explores_start (hd : scope.Distinguishes root) : Explores scope root (start root) where
  entered := List.mem_singleton_self _
  todo path hp := ⟨root, .refl, hp⟩
  found _ hn := nomatch hn
  followed formula hm hl path hp := by
    obtain rfl : formula = root := hd formula hm root List.mem_cons_self (List.mem_singleton.mp hl)
    exact .inl hp

/-- A step keeps the invariant if it follows a dotted name, looks into nothing but what that name
leads to, and finds nothing but its root. -/
private theorem Explores.follow {looked : List Nat} {todo rest : List Path} {found : List String}
    {path : Path} (h : Explores scope root ⟨looked, todo, found⟩)
    (hp : todo.Perm (path :: rest)) (hl : looked ⊆ next.looked) (hr : rest ⊆ next.todo)
    (hf : found ⊆ next.found) (hpath : Followed scope next path) :
    root.id ∈ next.looked ∧ ∀ formula ∈ root :: scope.formulas, formula.id ∈ looked →
      ∀ path ∈ formula.program.paths, path ∈ next.todo ∨ Followed scope next path := by
  refine ⟨hl h.entered, ?_⟩
  intro formula hm hin other ho
  rcases h.followed formula hm hin other ho with ht | ht
  · rcases List.mem_cons.mp (hp.mem_iff.mp ht) with rfl | ht
    · exact .inr hpath
    · exact .inl (hr ht)
  · exact .inr (ht.mono hl hf)

theorem Step.explores (hd : scope.Distinguishes root) (h : Explores scope root search)
    (hs : Step scope search next) : Explores scope root next := by
  have hrest {path : Path} {todo rest : List Path} (hp : todo.Perm (path :: rest)) :
      path ∈ todo ∧ rest ⊆ todo :=
    ⟨hp.mem_iff.mpr List.mem_cons_self, fun other ho => hp.mem_iff.mpr (List.mem_cons_of_mem _ ho)⟩
  cases hs with
  | @unresolved looked todo rest found path hp hr =>
    obtain ⟨hpath, htodo⟩ := hrest hp
    have hdone : Followed scope ⟨looked, rest, path.take 1 ++ found⟩ path :=
      ⟨fun _ name hn => List.mem_append_left _ (mem_take_one.mpr hn), by simp [hr]⟩
    obtain ⟨hroot, hfollowed⟩ := h.follow hp (List.Subset.refl _) (List.Subset.refl _)
      (List.subset_append_right _ _) hdone
    refine ⟨hroot, fun other ho => h.todo other (htodo ho), ?_, hfollowed⟩
    intro name hn
    rcases List.mem_append.mp hn with hn | hn
    · obtain ⟨reached, hreach, hm⟩ := h.todo path hpath
      exact ⟨reached, hreach, path, hm, hr, mem_take_one.mp hn⟩
    · exact h.found name hn
  | @enter looked todo rest found path formula hp hr hn =>
    obtain ⟨hpath, htodo⟩ := hrest hp
    have hdone : Followed scope ⟨formula.id :: looked, formula.program.paths ++ rest, found⟩ path :=
      ⟨by simp [hr], fun other ho => by cases hr.symm.trans ho; exact List.mem_cons_self⟩
    obtain ⟨hroot, hfollowed⟩ := h.follow hp (List.subset_cons_self _ _)
      (List.subset_append_right _ _) (List.Subset.refl _) hdone
    refine ⟨hroot, ?_, h.found, ?_⟩
    · intro other ho
      rcases List.mem_append.mp ho with ho | ho
      · obtain ⟨reached, hreach, hm⟩ := h.todo path hpath
        exact ⟨formula, hreach.tail ⟨path, hm, hr⟩, ho⟩
      · exact h.todo other (htodo ho)
    · intro other ho hl
      rcases List.mem_cons.mp hl with hid | hl
      · obtain rfl : other = formula :=
          hd other ho formula (List.mem_cons_of_mem _ (mem_formulas_of_resolve hr)) hid
        exact fun path hp => .inl (List.mem_append_left _ hp)
      · exact hfollowed other ho hl
  | @again looked todo rest found path formula hp hr hl =>
    obtain ⟨hpath, htodo⟩ := hrest hp
    have hdone : Followed scope ⟨looked, rest, found⟩ path :=
      ⟨by simp [hr], fun other ho => by cases hr.symm.trans ho; exact hl⟩
    obtain ⟨hroot, hfollowed⟩ := h.follow hp (List.Subset.refl _) (List.Subset.refl _)
      (List.Subset.refl _) hdone
    exact ⟨hroot, fun other ho => h.todo other (htodo ho), h.found, hfollowed⟩
  | @other looked todo rest found path binding hp hr hb =>
    obtain ⟨hpath, htodo⟩ := hrest hp
    have hdone : Followed scope ⟨looked, rest, found⟩ path :=
      ⟨by simp [hr], fun formula ho => absurd (Option.some.inj (hr.symm.trans ho)) (hb formula)⟩
    obtain ⟨hroot, hfollowed⟩ := h.follow hp (List.Subset.refl _) (List.Subset.refl _)
      (List.Subset.refl _) hdone
    exact ⟨hroot, fun other ho => h.todo other (htodo ho), h.found, hfollowed⟩

theorem Run.explores (hd : scope.Distinguishes root) (h : Explores scope root search)
    (hs : Run scope search next) : Explores scope root next := by
  induction hs with
  | refl => exact h
  | tail _ hs ih => exact hs.explores hd ih

theorem Explores.mem_found (h : Explores scope root search) (ht : search.todo = []) :
    name ∈ search.found ↔ scope.Misses root name := by
  have hall {formula : Formula} (hm : formula ∈ root :: scope.formulas)
      (hl : formula.id ∈ search.looked) :
      ∀ path ∈ formula.program.paths, Followed scope search path := by
    intro path hp
    have hf := h.followed formula hm hl path hp
    rw [ht] at hf
    exact hf.resolve_left List.not_mem_nil
  have hlooked {reached : Formula} (hreach : scope.Reaches root reached) :
      reached.id ∈ search.looked := by
    induction hreach with
    | refl => exact h.entered
    | tail hreach hr ih =>
      obtain ⟨path, hp, hr⟩ := hr
      exact (hall (Reaches.mem_formulas hreach) ih path hp).looked _ hr
  constructor
  · exact h.found name
  · rintro ⟨reached, hreach, path, hp, hr, hn⟩
    exact (hall hreach.mem_formulas (hlooked hreach) path hp).found hr name hn

/-- What a search finds in the end does not depend on the order in which it follows dotted names. -/
theorem Run.mem_found (hd : scope.Distinguishes root) (hs : Run scope (start root) last)
    (ht : last.todo = []) : name ∈ last.found ↔ scope.Misses root name :=
  (hs.explores hd (explores_start hd)).mem_found ht

theorem exists_step (ht : search.todo ≠ []) : ∃ next, Step scope search next := by
  obtain ⟨looked, todo, found⟩ := search
  obtain ⟨path, rest, rfl⟩ := List.exists_cons_of_ne_nil ht
  cases hr : scope.resolve path with
  | none => exact ⟨_, .unresolved (.refl _) hr⟩
  | some binding =>
    by_cases hb : ∃ formula, binding = .formula formula
    · obtain ⟨formula, rfl⟩ := hb
      by_cases hl : formula.id ∈ looked
      · exact ⟨_, .again (.refl _) hr hl⟩
      · exact ⟨_, .enter (.refl _) hr hl⟩
    · exact ⟨_, .other (.refl _) hr (not_exists.mp hb)⟩

theorem Step.decreases (hs : Step scope search next) :
    Prod.Lex (· < ·) (· < ·) (scope.unvisited next.looked, next.todo.length)
      (scope.unvisited search.looked, search.todo.length) := by
  cases hs with
  | enter hp hr hn =>
    apply Prod.Lex.left
    exact unvisited_lt (mem_formulas_of_resolve hr) (by simpa using hn)
  | unresolved hp | again hp | other hp =>
    apply Prod.Lex.right
    simp [hp.length_eq]

theorem acc (scope : Scope) (search : Search) :
    Acc (fun next search => Step scope search next) search := by
  refine Subrelation.accessible Step.decreases (InvImage.accessible
    (fun search : Search => (scope.unvisited search.looked, search.todo.length)) ?_)
  exact (WellFounded.prod_lex Nat.lt_wfRel.wf Nat.lt_wfRel.wf).apply _

/-- How many dotted names a search can still follow: those that it has yet to follow, and those of all
formulas of the scope that it has not looked into. -/
def remaining (scope : Scope) (search : Search) : Nat :=
  search.todo.length + (scope.formulas.map fun formula =>
    if formula.id ∈ search.looked then 0 else formula.program.paths.length).sum

private theorem sum_map_add_le {α : Type} {f g : α → Nat} {l : List α} {a : α}
    (difference : Nat) (hle : ∀ b, f b ≤ g b) (hm : a ∈ l) (ha : f a + difference ≤ g a) :
    (l.map f).sum + difference ≤ (l.map g).sum := by
  have hall (rest : List α) : (rest.map f).sum ≤ (rest.map g).sum :=
    List.sum_le_sum fun b _ => hle b
  induction l with
  | nil => cases hm
  | cons head rest ih =>
    simp only [List.map_cons, List.sum_cons]
    rcases List.mem_cons.mp hm with rfl | hm
    · have hrest := hall rest
      omega
    · have hhead := hle head
      have hrest := ih hm
      omega

/-- With each step a dotted name is followed, and the names of a formula that is looked into are not
counted again. -/
theorem Step.remaining_lt (hs : Step scope search next) :
    next.remaining scope < search.remaining scope := by
  cases hs with
  | @enter looked todo rest found path formula hp hr hn =>
    have hle (other : Formula) :
        (if other.id ∈ formula.id :: looked then 0 else other.program.paths.length) ≤
          if other.id ∈ looked then 0 else other.program.paths.length := by
      by_cases hm : other.id ∈ looked
      · rw [if_pos hm, if_pos (List.mem_cons_of_mem _ hm)]
      · rw [if_neg hm]
        split
        · exact Nat.zero_le _
        · exact Nat.le_refl _
    have hsum := sum_map_add_le formula.program.paths.length hle (mem_formulas_of_resolve hr)
      (by simp [hn])
    simp only [remaining, hp.length_eq, List.length_append, List.length_cons]
    omega
  | unresolved hp | again hp | other hp =>
    simp only [remaining, hp.length_eq, List.length_cons]
    omega

theorem length_le_remaining {searches : List Search}
    (hs : (search :: searches).IsChain (Step scope)) :
    searches.length ≤ search.remaining scope := by
  induction searches generalizing search with
  | nil => exact Nat.zero_le _
  | cons next searches ih =>
    obtain ⟨hstep, hrest⟩ := List.isChain_cons_cons.mp hs
    exact Nat.lt_of_le_of_lt (ih hrest) hstep.remaining_lt

end Search

end VectorFormula.Scope
