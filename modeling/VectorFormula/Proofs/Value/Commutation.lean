import Mathlib
import VectorFormula.Function.Arithmetic
import VectorFormula.Proofs.Evaluation.Relevance
import VectorFormula.Proofs.Machine.Refinement
import VectorFormula.Proofs.References.Missing
/-!
Exchanging the operands of sums and products. Of two values of one size, from two elements on, the
first one gives the elements, so that their order matters (`plus_multiply_exchange`).
-/
namespace VectorFormula

namespace Number

open Float.Model (Format UnpackedFloat)

private theorem unpacked_sum_comm (format : Format) (a b : UnpackedFloat) :
    UnpackedFloat.add format a b = UnpackedFloat.add format b a := by
  cases a with
  | notANumber => cases b <;> rfl
  | infinity s =>
    cases b with
    | infinity t => cases s <;> cases t <;> rfl
    | _ => rfl
  | zero s =>
    cases b with
    | zero t => cases s <;> cases t <;> rfl
    | _ => rfl
  | finite s m e hm =>
    cases b with
    | finite t n f hn =>
      -- Both significands are brought to the smaller exponent.
      simp only [UnpackedFloat.add, Int.min_comm e f, Int.add_comm]
    | _ => rfl

private theorem unpacked_product_comm (format : Format) (a b : UnpackedFloat) :
    UnpackedFloat.mul format a b = UnpackedFloat.mul format b a := by
  have hsign (s t : UnpackedFloat.Sign) : s * t = t * s := by cases s <;> cases t <;> rfl
  cases a <;> cases b <;> simp only [UnpackedFloat.mul, hsign, Nat.mul_comm, Int.add_comm]

theorem sum_comm (x y : Float) : x + y = y + x :=
  congrArg (fun sum => Float.ofModel (Float.Model.pack sum)) (unpacked_sum_comm _ _ _)

theorem product_comm (x y : Float) : x * y = y * x :=
  congrArg (fun product => Float.ofModel (Float.Model.pack product)) (unpacked_product_comm _ _ _)

end Number

namespace Value

variable {reducer combine : Float → Float → Float} {a b : Value}

theorem foldLonger_of_size_eq (h : a.size = b.size) :
    foldLonger reducer combine a b = fold reducer combine a b :=
  if_pos h.ge

theorem foldLonger_comm (hc : ∀ x y, combine x y = combine y x) (h : a.size = b.size → a.size ≤ 1) :
    foldLonger reducer combine a b = foldLonger reducer combine b a := by
  rcases Nat.lt_trichotomy a.size b.size with hlt | heq | hgt
  · rw [foldLonger, foldLonger, if_neg (Nat.not_le.mpr hlt), if_pos hlt.le]
  · rw [foldLonger_of_size_eq heq, foldLonger_of_size_eq heq.symm]
    -- Neither has more than one element, so there is nothing to be added up.
    match a, b, heq, h heq with
    | ⟨[]⟩, ⟨[]⟩, _, _ => rfl
    | ⟨[x]⟩, ⟨[y]⟩, _, _ => exact congrArg scalar (hc x y)
  · rw [foldLonger, foldLonger, if_pos hgt.le, if_neg (Nat.not_le.mpr hgt)]

end Value

/-- Whether two operands may be exchanged: their values are of different sizes, or they are numbers or
empty, and if both of them fail, they fail alike. -/
structure Exchangeable (first second : Except RuntimeError Value) : Prop where
  size : ∀ a b, first = .ok a → second = .ok b → a.size = b.size → a.size ≤ 1
  error : ∀ e f, first = .error e → second = .error f → e = f

section

variable {f : Value → Value → Value} {operator : Operator} {x y : Term}

theorem Term.evaluate_exchange (hf : ∀ a b, (a.size = b.size → a.size ≤ 1) → f a b = f b a)
    {read : Path → Except RuntimeError Value}
    (h : Exchangeable (x.evaluate read) (y.evaluate read)) :
    (binary operator (.binary f) y x).evaluate read =
      (binary operator (.binary f) x y).evaluate read := by
  simp only [Term.evaluate]
  cases hx : x.evaluate read with
  | error e =>
    cases hy : y.evaluate read with
    | error other => exact congrArg Except.error (h.error e other hx hy).symm
    | ok b => rfl
  | ok a =>
    cases hy : y.evaluate read with
    | error e => rfl
    | ok b => exact congrArg Except.ok (hf a b (h.size a b hx hy)).symm

theorem Formula.result_evaluate_exchange
    (hf : ∀ a b, (a.size = b.size → a.size ≤ 1) → f a b = f b a) {formula other : Formula}
    (hp : formula.program = (Term.binary operator (.binary f) x y).program)
    (ho : other.program = (Term.binary operator (.binary f) y x).program) {layers : List Context}
    (hd : (Scope.ofLayers layers).Distinguishes formula)
    (hdo : (Scope.ofLayers layers).Distinguishes other)
    (hb : ∀ bound ∈ (Scope.ofLayers layers).formulas,
      bound.id ≠ formula.id ∧ bound.id ≠ other.id) {options : Options} {load : Path → Run Value}
    (hl : Evaluation.reading (.ofLayers layers) options options.maxDepth [formula.id] = load)
    (h : Exchangeable (x.evaluate (Term.results load)) (y.evaluate (Term.results load))) :
    (other.evaluate layers options).result = (formula.evaluate layers options).result := by
  have hpaths (path : Path) : path ∈ other.program.paths ↔ path ∈ formula.program.paths := by
    simp only [hp, ho, Term.program, Program.mem_paths, List.mem_append]
    tauto
  have hunknowns :
      (Scope.ofLayers layers).unknowns other = (Scope.ofLayers layers).unknowns formula := by
    refine Scope.unknowns_congr hd hdo fun name => ?_
    rw [Scope.misses_iff, Scope.misses_iff]
    simp only [hpaths]
  -- The second order is evaluated under the identity of the first, where names are read alike.
  have hsame : (Evaluation.within (.ofLayers layers) options options.maxDepth [] other).result =
      (Evaluation.within (.ofLayers layers) options options.maxDepth []
        ⟨formula.id, other.expression⟩).result := by
    refine Evaluation.within_same_program _ rfl (fun bound hbound => ?_) fun _ _ _ _ => .inl rfl
    obtain ⟨hf, ho⟩ := hb bound hbound
    simp [hf, ho]
  have hexchange : (Evaluation.within (.ofLayers layers) options options.maxDepth []
        ⟨formula.id, other.expression⟩).result =
      (Evaluation.within (.ofLayers layers) options options.maxDepth [] formula).result := by
    have hprogram : Formula.program ⟨formula.id, other.expression⟩ = other.program := rfl
    rw [Evaluation.within, Evaluation.within, hl, hprogram, hp, ho,
      (Term.program_pushes load _).run, (Term.program_pushes load _).run,
      Term.evaluate_exchange hf h]
  rw [result_evaluate_eq, result_evaluate_eq, hunknowns, hsame, hexchange]

end

namespace Function

open Value

variable {a b : Value}

theorem plus_comm (h : a.size = b.size → a.size ≤ 1) : plus a b = plus b a :=
  foldLonger_comm Number.sum_comm h

theorem multiply_comm (h : a.size = b.size → a.size ≤ 1) : multiply a b = multiply b a :=
  foldLonger_comm Number.product_comm h

/-- Operands of different sizes may be exchanged in a sum and in a product, and so may numbers. Of two
values of one size, the first one gives the elements, each of them combined with all elements of the
second. Two formulas that are the sums, or the products, of two terms in either order have one result
in layers that bind neither of them, if the values of the terms may be exchanged and not both terms
fail in different ways. -/
theorem plus_multiply_exchange :
    (∀ a b : Value, (a.size = b.size → a.size ≤ 1) →
      plus a b = plus b a ∧ multiply a b = multiply b a) ∧
    (∀ a b : Value, a.size = b.size → ∀ i,
      (plus a b).get? i = (a.get? i).map (fun x => reduce add (b.elements.map (x + ·))) ∧
      (multiply a b).get? i = (a.get? i).map (fun x => reduce add (b.elements.map (x * ·)))) ∧
    ∀ operator f, operator = .plus ∧ f = plus ∨ operator = .multiply ∧ f = multiply →
      ∀ (x y : Term) (formula other : Formula),
        formula.program = (Term.binary operator (.binary f) x y).program →
        other.program = (Term.binary operator (.binary f) y x).program →
        ∀ layers : List Context, (Scope.ofLayers layers).Distinguishes formula →
          (Scope.ofLayers layers).Distinguishes other →
          (∀ bound ∈ (Scope.ofLayers layers).formulas,
            bound.id ≠ formula.id ∧ bound.id ≠ other.id) →
          ∀ options : Options,
            let read := Term.results
              (Evaluation.reading (.ofLayers layers) options options.maxDepth [formula.id])
            Exchangeable (x.evaluate read) (y.evaluate read) →
            (other.evaluate layers options).result = (formula.evaluate layers options).result := by
  refine ⟨fun a b h => ⟨plus_comm h, multiply_comm h⟩, fun a b h i => ?_, ?_⟩
  · rw [plus, multiply, foldLonger_of_size_eq h, foldLonger_of_size_eq h]
    exact ⟨get?_fold _ _ a b i, get?_fold _ _ a b i⟩
  · intro operator f hf x y formula other hp ho layers hd hdo hb options read h
    refine Formula.result_evaluate_exchange (fun a b hs => ?_) hp ho hd hdo hb rfl h
    rcases hf with ⟨-, rfl⟩ | ⟨-, rfl⟩
    · exact plus_comm hs
    · exact multiply_comm hs

/-- Two values of different sizes, and two names that are bound to such values. -/
theorem plus_multiply_exchange_longer :
    plus ⟨[1.0, 2.0, 3.0]⟩ ⟨[10.0, 20.0]⟩ = plus ⟨[10.0, 20.0]⟩ ⟨[1.0, 2.0, 3.0]⟩ ∧
    let formula : Formula := ⟨0, "x + y", [.load ["x"], .load ["y"], .call "+" (.binary plus) 2]⟩
    let other : Formula := ⟨1, "y + x", [.load ["y"], .load ["x"], .call "+" (.binary plus) 2]⟩
    let layers : List Context :=
      [⟨[("x", .value ⟨[1.0, 2.0, 3.0]⟩), ("y", .formula ⟨2, "4", [.push (.scalar 4.0)]⟩)]⟩]
    (other.evaluate layers {}).result = (formula.evaluate layers {}).result := by
  obtain ⟨hvalues, -, hformulas⟩ := plus_multiply_exchange
  refine ⟨(hvalues _ _ (by decide)).1, ?_⟩
  intro formula other layers
  have hbound : (Scope.ofLayers layers).formulas = [⟨2, "4", [.push (.scalar 4.0)]⟩] := rfl
  refine hformulas .plus plus (.inl ⟨rfl, rfl⟩) (.named ["x"]) (.named ["y"]) formula other rfl rfl
    layers ?_ ?_ ?_ {} ⟨?_, nofun⟩
  · simp [Scope.Distinguishes, hbound, formula]
  · simp [Scope.Distinguishes, hbound, other]
  · simp [hbound, formula, other]
  · rintro a b ⟨⟩ ⟨⟩ h
    exact absurd h (by decide)

/-- Two values of two elements each cannot be exchanged. -/
theorem plus_multiply_order :
    (plus ⟨[1.0, 2.0]⟩ ⟨[3.0, 5.0]⟩).elements = [10.0, 12.0] ∧
    (plus ⟨[3.0, 5.0]⟩ ⟨[1.0, 2.0]⟩).elements = [9.0, 13.0] ∧
    ¬∀ a b : Value, plus a b = plus b a ∧ multiply a b = multiply b a := by
  refine ⟨by decide +kernel, by decide +kernel, fun hall => ?_⟩
  have helements := congrArg elements (hall ⟨[1.0, 2.0]⟩ ⟨[3.0, 5.0]⟩).1
  exact absurd helements (by decide +kernel)

end Function

end VectorFormula
