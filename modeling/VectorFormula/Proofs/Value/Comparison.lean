import Mathlib
import VectorFormula.Function.Logic
import VectorFormula.Registry
import VectorFormula.Proofs.Machine.Refinement
/-!
Comparisons and connectives of values. An element of the first operand passes if the second
operand has elements and the element stands in the relation to all of them (`get?_holdsForAll`).
-/
namespace VectorFormula

namespace Number

open Float.Model (UnpackedFloat)

def NonZero (x : Float) : Prop := x ≠ 0 ∧ x ≠ -0

theorem isTrue_iff {x : Float} : Value.isTrue x = true ↔ NonZero x := by
  have hzero : (x == 0.0) = true ↔ x = 0 ∨ x = -0 := by
    rw [show (0.0 : Float) = 0 by decide, Float.beq_iff_ne_nan_and_eq]
    constructor
    · rintro ⟨-, -, h | ⟨h, -⟩ | ⟨h, -⟩⟩
      · exact .inl h
      · exact .inl h
      · exact .inr h
    · rintro (rfl | rfl)
      · exact ⟨by decide, by decide, .inl rfl⟩
      · exact ⟨by decide, by decide, .inr (.inr ⟨rfl, rfl⟩)⟩
  rw [Value.isTrue, bne, Bool.not_eq_true', Bool.eq_false_iff, ne_eq, hzero, not_or, NonZero]

theorem nonZero_nan : NonZero Float.nan := by
  constructor <;> decide

private theorem unpack_nan : Float.nan.toModel.unpack = .notANumber :=
  UnpackedFloat.unpack_packedNaN

private theorem compare_notANumber (a : UnpackedFloat) :
    a.compare .notANumber = none ∧ UnpackedFloat.compare .notANumber a = none := by
  constructor <;> cases a <;> rfl

theorem not_ordered_nan (x : Float) :
    (¬ x < Float.nan ∧ ¬ Float.nan < x) ∧ ¬ x ≤ Float.nan ∧ ¬ Float.nan ≤ x := by
  have hlt (y z : Float) : y < z ↔ UnpackedFloat.lt y.toModel.unpack z.toModel.unpack = true :=
    decide_eq_true_iff
  have hle (y z : Float) : y ≤ z ↔ UnpackedFloat.le y.toModel.unpack z.toModel.unpack = true :=
    decide_eq_true_iff
  simp [hlt, hle, unpack_nan, UnpackedFloat.lt, UnpackedFloat.le, compare_notANumber]

end Number

namespace Operator

open Number (NonZero)

/-- The relation of numbers that an operator stands for, if it compares or connects. Connectives take
all numbers but the zeros as true. -/
def relation? : Operator → Option (Float → Float → Prop)
  | equal => some fun x y => (x == y) = true
  | greater => some fun x y => y < x
  | less => some fun x y => x < y
  | greaterOrEqual => some fun x y => y ≤ x
  | lessOrEqual => some fun x y => x ≤ y
  | and => some fun x y => NonZero x ∧ NonZero y
  | or => some fun x y => NonZero x ∨ NonZero y
  | _ => none

theorem not_relation_nan {operator : Operator} {relation : Float → Float → Prop}
    (h : operator.relation? = some relation) (ha : operator ≠ .and) (ho : operator ≠ .or)
    (x : Float) : ¬ relation x Float.nan ∧ ¬ relation Float.nan x := by
  obtain ⟨⟨hlt, hgt⟩, hle, hge⟩ := Number.not_ordered_nan x
  cases operator with
  | equal => cases h; simp
  | greater => cases h; exact ⟨hgt, hlt⟩
  | less => cases h; exact ⟨hlt, hgt⟩
  | greaterOrEqual => cases h; exact ⟨hge, hle⟩
  | lessOrEqual => cases h; exact ⟨hle, hge⟩
  | and => exact absurd rfl ha
  | or => exact absurd rfl ho
  | _ => cases h

end Operator

namespace Value

open Number (NonZero)

/-- Whether a value has elements, and a number stands in a relation to all of them. -/
def Passes (relation : Float → Float → Prop) (x : Float) (b : Value) : Prop :=
  b.isEmpty = false ∧ ∀ j y, b.get? j = some y → relation x y

/-- Whether a value has elements, and none of them is a zero. -/
def Affirms (v : Value) : Prop :=
  v.isEmpty = false ∧ ∀ i x, v.get? i = some x → NonZero x

/-- Whether a value has elements, and all elements of another one stand in a relation to all of
them. -/
def Related (relation : Float → Float → Prop) (a b : Value) : Prop :=
  b.isEmpty = false ∧ ∀ i x j y, a.get? i = some x → b.get? j = some y → relation x y

variable {a b v : Value} {x : Float}

theorem isTrue_truth (b : Bool) : isTrue (truth b) = b := by
  cases b <;> decide

theorem truth_cases (b : Bool) : truth b = 0.0 ∨ truth b = 1.0 := by
  cases b
  · exact .inl rfl
  · exact .inr rfl

theorem truth_eq_one {b : Bool} : truth b = 1.0 ↔ b = true := by
  cases b <;> decide

theorem isTrue_both (x y : Float) : isTrue (both x y) = (isTrue x && isTrue y) :=
  isTrue_truth _

private theorem isTrue_foldl_both (x : Float) (rest : List Float) :
    isTrue (rest.foldl both x) = (isTrue x && rest.all isTrue) := by
  induction rest generalizing x with
  | nil => simp
  | cons y rest ih => rw [List.foldl_cons, ih, isTrue_both, List.all_cons, Bool.and_assoc]

theorem isTruthy_eq (v : Value) : v.isTruthy = (!v.isEmpty && v.elements.all isTrue) := by
  obtain ⟨elements⟩ := v
  cases elements with
  | nil => decide
  | cons x rest => exact isTrue_foldl_both x rest

private theorem forall_get? {p : Float → Prop} :
    (∀ i x, v.get? i = some x → p x) ↔ ∀ x ∈ v.elements, p x := by
  constructor
  · intro h x hx
    obtain ⟨i, hi⟩ := List.mem_iff_getElem?.mp hx
    exact h i x hi
  · intro h i x hx
    exact h x (List.mem_of_getElem? hx)

theorem isTruthy_iff : v.isTruthy = true ↔ v.Affirms := by
  simp only [isTruthy_eq, Bool.and_eq_true, Bool.not_eq_true', List.all_eq_true, Number.isTrue_iff,
    Affirms, forall_get?]

private theorem reduce_both_truth (test : Float → Bool) (elements : List Float) :
    reduce both (elements.map fun y => truth (test y)) =
      truth (!elements.isEmpty && elements.all test) := by
  have hfold (b : Bool) (rest : List Float) :
      (rest.map fun y => truth (test y)).foldl both (truth b) = truth (b && rest.all test) := by
    induction rest generalizing b with
    | nil => simp
    | cons y rest ih =>
      have hboth : both (truth b) (truth (test y)) = truth (b && test y) := by
        rw [both, isTrue_truth, isTrue_truth]
      rw [List.map_cons, List.foldl_cons, hboth, ih, List.all_cons, Bool.and_assoc]
  cases elements with
  | nil => rfl
  | cons y rest => exact hfold (test y) rest

end Value

namespace Function

open Value

variable {test : Float → Float → Bool} {relation : Float → Float → Prop} {a b : Value} {x : Float}

theorem get?_holdsForAll (test : Float → Float → Bool) (a b : Value) (i : Nat) :
    (holdsForAll test a b).get? i =
      (a.get? i).map fun x => truth (!b.isEmpty && b.elements.all (test x)) := by
  simp only [holdsForAll, get?_fold, reduce_both_truth, isEmpty]

theorem passes_iff (ht : ∀ x y, test x y = true ↔ relation x y) :
    (!b.isEmpty && b.elements.all (test x)) = true ↔ Passes relation x b := by
  simp only [Bool.and_eq_true, Bool.not_eq_true', List.all_eq_true, ht, Passes, forall_get?]

theorem affirms_holdsForAll (ht : ∀ x y, test x y = true ↔ relation x y) (ha : a.isEmpty = false) :
    (holdsForAll test a b).Affirms ↔ Related relation a b := by
  have hempty : (holdsForAll test a b).isEmpty = false := by
    rw [← ha, isEmpty, isEmpty, holdsForAll, fold, List.isEmpty_map]
  obtain ⟨first, hfirst⟩ : ∃ first, a.get? 0 = some first := by
    obtain ⟨elements⟩ := a
    cases elements with
    | nil => cases ha
    | cons first rest => exact ⟨first, rfl⟩
  simp only [Affirms, hempty, true_and, get?_holdsForAll, Option.map_eq_some_iff]
  constructor
  · intro h
    have hpass (i : Nat) (x : Float) (hx : a.get? i = some x) : Passes relation x b := by
      have htrue := Number.isTrue_iff.mpr (h i _ ⟨x, hx, rfl⟩)
      rw [isTrue_truth] at htrue
      exact (passes_iff ht).mp htrue
    exact ⟨(hpass 0 first hfirst).1, fun i x j y hx hy => (hpass i x hx).2 j y hy⟩
  · rintro ⟨hb, h⟩ i z ⟨x, hx, rfl⟩
    have hpass : Passes relation x b := ⟨hb, fun j y hy => h i x j y hx hy⟩
    rw [(passes_iff ht).mpr hpass]
    exact Number.isTrue_iff.mp (isTrue_truth true)

theorem choose_cases (condition yes no : Value) :
    (condition.Affirms → choose condition yes no = yes) ∧
      (¬ condition.Affirms → choose condition yes no = no) :=
  ⟨fun h => if_pos (isTruthy_iff.mpr h), fun h => if_neg (mt isTruthy_iff.mp h)⟩

theorem exists_test {operator : Operator} (h : operator.relation? = some relation) :
    ∃ test, Registry.builtin.lookupOperator operator 2 = .ok (.binary (holdsForAll test)) ∧
      ∀ x y, test x y = true ↔ relation x y := by
  cases operator with
  | equal => cases h; exact ⟨fun x y => x == y, rfl, fun _ _ => .rfl⟩
  | greater => cases h; exact ⟨fun x y => y < x, rfl, fun _ _ => decide_eq_true_iff⟩
  | less => cases h; exact ⟨fun x y => x < y, rfl, fun _ _ => decide_eq_true_iff⟩
  | greaterOrEqual => cases h; exact ⟨fun x y => y ≤ x, rfl, fun _ _ => decide_eq_true_iff⟩
  | lessOrEqual => cases h; exact ⟨fun x y => x ≤ y, rfl, fun _ _ => decide_eq_true_iff⟩
  | and =>
    cases h
    exact ⟨fun x y => isTrue x && isTrue y, rfl, fun x y => by
      rw [Bool.and_eq_true, Number.isTrue_iff, Number.isTrue_iff]⟩
  | or =>
    cases h
    exact ⟨fun x y => isTrue x || isTrue y, rfl, fun x y => by
      rw [Bool.or_eq_true, Number.isTrue_iff, Number.isTrue_iff]⟩
  | _ => cases h

theorem choose_holdsForAll (ht : ∀ x y, test x y = true ↔ relation x y) (ha : a.isEmpty = false)
    (yes no : Value) :
    (Related relation a b → choose (holdsForAll test a b) yes no = yes) ∧
      (¬ Related relation a b → choose (holdsForAll test a b) yes no = no) := by
  rw [← affirms_holdsForAll ht ha]
  exact choose_cases _ yes no

/-- A comparison or a connective of two values has one element for each of the first, which is one if
the element stands in the relation to all elements of the second and there are any, and zero otherwise.
A choice is the first alternative if its condition has elements and none of them is a zero, and the
second one otherwise. So a choice by a comparison, of values and of formulas, asks whether the relation
holds between all elements. What is undefined is no zero, and nothing compares to it. -/
theorem comparisons_forAll :
    (∀ (operator : Operator) relation, operator.relation? = some relation →
      ∃ f, Registry.builtin.lookupOperator operator 2 = .ok (.binary f) ∧
        (∀ a b : Value, (f a b).size = a.size ∧ ∀ i x, a.get? i = some x →
          ((f a b).get? i = some 0.0 ∨ (f a b).get? i = some 1.0) ∧
          ((f a b).get? i = some 1.0 ↔ Passes relation x b)) ∧
        (∀ a b yes no : Value, a.isEmpty = false →
          (Related relation a b → choose (f a b) yes no = yes) ∧
          (¬ Related relation a b → choose (f a b) yes no = no)) ∧
        ∀ (load : Path → Run Value) (x y s t : Term) (a b yes no : Value),
          x.evaluate (Term.results load) = .ok a → y.evaluate (Term.results load) = .ok b →
          s.evaluate (Term.results load) = .ok yes → t.evaluate (Term.results load) = .ok no →
          a.isEmpty = false →
          let choice : Term :=
            .conditional (.ternary choose) (.group (.binary operator (.binary f) x y)) s t
          (Related relation a b → (choice.program.run load).result = .ok yes) ∧
          (¬ Related relation a b → (choice.program.run load).result = .ok no)) ∧
    (Registry.builtin.lookupOperator .ternary 3 = .ok (.ternary choose) ∧
      ∀ condition yes no : Value,
        (condition.Affirms → choose condition yes no = yes) ∧
        (¬ condition.Affirms → choose condition yes no = no)) ∧
    Number.NonZero Float.nan ∧
    ∀ (operator : Operator) relation, operator.relation? = some relation →
      operator ≠ .and → operator ≠ .or → ∀ x, ¬ relation x Float.nan ∧ ¬ relation Float.nan x := by
  refine ⟨fun operator relation h => ?_, ⟨rfl, choose_cases⟩, Number.nonZero_nan,
    fun operator relation h => Operator.not_relation_nan h⟩
  obtain ⟨test, hlookup, ht⟩ := exists_test h
  refine ⟨holdsForAll test, hlookup, fun a b => ⟨size_fold _ _ a b, fun i x hx => ?_⟩,
    fun a b yes no ha => choose_holdsForAll ht ha yes no, ?_⟩
  · rw [get?_holdsForAll, hx, Option.map_some, Option.some_inj, Option.some_inj]
    exact ⟨truth_cases _, truth_eq_one.trans (passes_iff ht)⟩
  · intro load x y s t a b yes no hx hy hs hn ha choice
    have hresult : (choice.program.run load).result =
        .ok (choose (holdsForAll test a b) yes no) := by
      rw [(Term.program_pushes load choice).run]
      simp only [choice, Term.evaluate, hx, hy, hs, hn]
      rfl
    obtain ⟨hrelated, hother⟩ := choose_holdsForAll ht ha (b := b) yes no
    rw [hresult]
    exact ⟨fun h => congrArg Except.ok (hrelated h), fun h => congrArg Except.ok (hother h)⟩

/-- One number is less than both elements of a vector, and the choice by this comparison is made. -/
theorem comparisons_forAll_less :
    (less ⟨[1.0, 5.0]⟩ ⟨[2.0, 3.0]⟩).get? 0 = some 1.0 ∧
    ((Term.conditional (.ternary choose) (.group (.binary .less (.binary less) (.number 1.0)
      (.vector [.number 2.0, .number 3.0]))) (.number 7.0) (.number 8.0)).program.run
        (fun _ => pure .empty)).result = .ok (.scalar 7.0) := by
  obtain ⟨f, hf, hvalues, -, hformulas⟩ := comparisons_forAll.1 .less _ rfl
  obtain rfl : f = less := by cases hf; rfl
  have hless (y : Float) (hy : y ∈ [2.0, 3.0]) : (1.0 : Float) < y := by
    simp only [List.mem_cons, List.not_mem_nil, or_false] at hy
    rcases hy with rfl | rfl <;> decide
  have hpasses : Passes (fun x y => x < y) 1.0 ⟨[2.0, 3.0]⟩ := ⟨rfl, forall_get?.mpr hless⟩
  refine ⟨((hvalues _ _).2 0 1.0 rfl).2.mpr hpasses, ?_⟩
  refine (hformulas _ _ _ _ _ _ _ _ _ rfl rfl rfl rfl rfl).1 ⟨rfl, fun i x j y hx hy => ?_⟩
  obtain rfl : x = 1.0 := List.mem_singleton.mp (List.mem_of_getElem? hx)
  exact hpasses.2 j y hy

end Function

end VectorFormula
