import VectorFormula.Function.Arithmetic
import VectorFormula.Proofs.Number.Exact
/-!
Sequences of whole numbers. A sequence has all whole numbers from one bound to the other, each as
the double that stands for it, unless they are too many (`range_exact`).
-/
namespace VectorFormula.Function

open Number (clamp64 fraction? isSafe ofInt ofSafe? towardZero truncate? view)

/-- Whether a value bounds sequences at a whole number: its first element is finite, and has this
number as its whole part, which is safe. -/
def Bounds (v : Value) (bound : Int) : Prop :=
  ∃ first q, v.first? = some first ∧ fraction? first = some q ∧ towardZero q = bound ∧
    bound.natAbs ≤ 2 ^ 53 - 1

def bound? (v : Value) : Option Int :=
  (v.first?.bind truncate?).filter isSafe

/-- The whole number that is so many steps from one number on the way to another. -/
def along (start stop : Int) (step : Nat) : Int :=
  if start ≤ stop then start + step else start - step

def countFrom (start stop : Int) : List Int :=
  (List.range ((stop - start).natAbs + 1)).map (along start stop)

section

variable {v a b : Value} {first : Float} {x y : Int} {step : Nat}

theorem bound?_eq_some : bound? v = some x ↔ Bounds v x := by
  have hsafe : isSafe x = true ↔ x.natAbs ≤ 2 ^ 53 - 1 := decide_eq_true_iff
  simp only [bound?, Bounds, Option.filter_eq_some_iff, Option.bind_eq_some_iff,
    Number.truncate?_eq, Option.map_eq_some_iff, hsafe]
  constructor
  · rintro ⟨⟨first, hf, q, hq, hx⟩, hs⟩
    exact ⟨first, q, hf, hq, hx, hs⟩
  · rintro ⟨first, q, hf, hq, hx, hs⟩
    exact ⟨⟨first, hf, q, hq, hx⟩, hs⟩

theorem Bounds.isSafe (h : Bounds v x) : isSafe x = true := by
  obtain ⟨first, q, -, -, -, hs⟩ := h
  exact decide_eq_true hs

theorem length_countFrom (x y : Int) : (countFrom x y).length = (y - x).natAbs + 1 := by
  simp [countFrom]

theorem getElem_countFrom (h : step < (countFrom x y).length) :
    (countFrom x y)[step] = along x y step := by
  simp only [countFrom, List.getElem_map, List.getElem_range]

theorem mem_countFrom {k : Int} (h : k ∈ countFrom x y) : (x ≤ k ∨ y ≤ k) ∧ (k ≤ x ∨ k ≤ y) := by
  obtain ⟨step, hs, rfl⟩ := List.mem_map.mp h
  have hlt := List.mem_range.mp hs
  unfold along
  split <;> omega

theorem countFrom_reverse (x y : Int) : countFrom y x = (countFrom x y).reverse := by
  apply List.ext_getElem
  · rw [List.length_reverse, length_countFrom, length_countFrom]
    omega
  · intro step hback hforth
    rw [List.getElem_reverse, getElem_countFrom, getElem_countFrom, length_countFrom]
    rw [length_countFrom] at hback
    simp only [along]
    split <;> split <;> omega

theorem upTo_eq (h : x ≤ y) : upTo x y = countFrom x y := by
  have hlength : (y - x + 1).toNat = (y - x).natAbs + 1 := by omega
  rw [upTo, countFrom, hlength]
  exact List.map_congr_left fun step _ => (if_pos h).symm

theorem isSafe_along (hx : isSafe x = true) (hy : isSafe y = true)
    (hs : step ≤ (y - x).natAbs) : isSafe (along x y step) = true := by
  simp only [isSafe, decide_eq_true_eq] at hx hy ⊢
  unfold along
  split <;> omega

theorem filterMap_countFrom (hx : isSafe x = true) (hy : isSafe y = true) :
    (countFrom x y).filterMap ofSafe? = (countFrom x y).map ofInt := by
  rw [← List.filterMap_eq_map]
  refine List.filterMap_congr fun k hk => ?_
  obtain ⟨step, hs, rfl⟩ := List.mem_map.mp hk
  exact if_pos (isSafe_along hx hy (Nat.le_of_lt_succ (List.mem_range.mp hs)))

theorem sequence_eq (x y : Int) :
    sequence x y = match (some x).filter isSafe, (some y).filter isSafe with
      | some x, some y =>
        if (y - x).natAbs < 2 ^ 20 then ⟨(countFrom x y).map ofInt⟩ else .empty
      | _, _ => .empty := by
  cases hx : isSafe x with
  | false => simp [sequence, ofSafe?, Option.filter, hx]
  | true =>
    cases hy : isSafe y with
    | false => simp [sequence, ofSafe?, Option.filter, hx, hy]
    | true =>
      have hlimit : maxSequence ≤ (y - x).natAbs ↔ ¬(y - x).natAbs < 2 ^ 20 := Nat.not_lt.symm
      simp only [sequence, ofSafe?, Option.filter, hx, hy, hlimit, if_true, Option.isNone_some,
        Bool.or_false, Bool.false_or, decide_eq_true_eq, ite_not]
      split
      · split
        · rw [upTo_eq ‹_›, filterMap_countFrom hx hy]
        · rw [upTo_eq (Int.le_of_not_le ‹_›), ← countFrom_reverse y x, filterMap_countFrom hx hy]
      · rfl

theorem bound?_of_first (h : v.first? = some first) :
    bound? v = if first.isFinite then (some (clamp64 first)).filter isSafe else none := by
  rw [bound?, h, Option.bind_some, Number.truncate?_eq, Number.isFinite_eq]
  cases hq : fraction? first with
  | none => rfl
  | some q =>
    obtain ⟨hsafe, hcast⟩ := Number.isSafe_clamp64 hq
    simp only [Option.map_some, Option.isSome_some, if_true, Option.filter, hsafe]
    cases hs : isSafe (towardZero q) with
    | false => rfl
    | true => rw [hcast hs]

/-- A sequence has elements only between two bounds. -/
theorem range_eq (a b : Value) :
    range a b = match bound? a, bound? b with
      | some x, some y =>
        if (y - x).natAbs < 2 ^ 20 then ⟨(countFrom x y).map ofInt⟩ else .empty
      | _, _ => .empty := by
  unfold range
  cases ha : a.first? with
  | none => simp only [bound?, ha, Option.bind_none, Option.filter_none]
  | some first =>
    cases hb : b.first? with
    | none => cases bound? a <;> simp only [bound?, hb, Option.bind_none, Option.filter_none]
    | some last =>
      rw [bound?_of_first ha, bound?_of_first hb]
      dsimp only
      cases first.isFinite with
      | false => rfl
      | true =>
        cases last.isFinite with
        | false => cases (some (clamp64 first)).filter isSafe <;> rfl
        | true => exact sequence_eq _ _

theorem range_of_bounds (ha : Bounds a x) (hb : Bounds b y) (hl : (y - x).natAbs < 2 ^ 20) :
    range a b = ⟨(countFrom x y).map ofInt⟩ := by
  rw [range_eq, bound?_eq_some.mpr ha, bound?_eq_some.mpr hb]
  exact if_pos hl

theorem range_eq_empty (h : ∀ x y, Bounds a x → Bounds b y → 2 ^ 20 ≤ (y - x).natAbs) :
    range a b = .empty := by
  rw [range_eq]
  cases ha : bound? a with
  | none => rfl
  | some x =>
    cases hb : bound? b with
    | none => rfl
    | some y => exact if_neg (Nat.not_lt.mpr (h x y (bound?_eq_some.mp ha) (bound?_eq_some.mp hb)))

theorem range_reverse (a b : Value) : (range b a).elements = (range a b).elements.reverse := by
  rw [range_eq a b, range_eq b a]
  cases bound? a with
  | none => cases bound? b <;> rfl
  | some x =>
    cases bound? b with
    | none => rfl
    | some y =>
      have hsame : (x - y).natAbs = (y - x).natAbs := by omega
      simp only [hsame, countFrom_reverse x y, List.map_reverse]
      split <;> rfl

theorem size_range_le (a b : Value) : (range a b).size ≤ 2 ^ 20 := by
  rw [range_eq]
  split
  · split
    · rw [Value.size, List.length_map, length_countFrom]
      omega
    · exact Nat.zero_le _
  · exact Nat.zero_le _

end

/-- Between two bounds less than `2 ^ 20` apart there are all whole numbers on the way, each as the
double that stands for it. Otherwise there are no elements, and there are none from or to a whole part
that is not safe, which no cast to 64 bits makes safe. The same sequence is found on the way back, in
reverse order, and no sequence has more than `2 ^ 20` elements. -/
theorem range_exact (a b : Value) :
    (∀ x y : Int, Bounds a x → Bounds b y → (y - x).natAbs < 2 ^ 20 →
      (range a b).size = (y - x).natAbs + 1 ∧
      ∀ step ≤ (y - x).natAbs, (range a b).get? step = some (ofInt (along x y step)) ∧
        fraction? (ofInt (along x y step)) = some (along x y step : ℚ)) ∧
    ((∀ x y : Int, Bounds a x → Bounds b y → 2 ^ 20 ≤ (y - x).natAbs) → range a b = .empty) ∧
    (∀ first q, a.first? = some first ∨ b.first? = some first → fraction? first = some q →
      2 ^ 53 - 1 < (towardZero q).natAbs →
      isSafe (clamp64 first) = false ∧ range a b = .empty) ∧
    (range b a).elements = (range a b).elements.reverse ∧
    (range a b).size ≤ 2 ^ 20 := by
  refine ⟨?_, range_eq_empty, ?_, range_reverse a b, size_range_le a b⟩
  · intro x y ha hb hl
    rw [range_of_bounds ha hb hl]
    refine ⟨by rw [Value.size, List.length_map, length_countFrom], ?_⟩
    intro step hs
    have hstep : step < (countFrom x y).length := by
      rw [length_countFrom]
      exact Nat.lt_succ_of_le hs
    refine ⟨?_, Number.fraction?_ofInt (isSafe_along ha.isSafe hb.isSafe hs)⟩
    rw [Value.get?, List.getElem?_map, List.getElem?_eq_getElem hstep, getElem_countFrom hstep]
    rfl
  · intro first q hf hq hlarge
    have hunsafe : isSafe (towardZero q) = false := decide_eq_false (Nat.not_le_of_lt hlarge)
    refine ⟨(Number.isSafe_clamp64 hq).1.trans hunsafe, range_eq_empty ?_⟩
    -- A value with such a first element bounds nothing, on whichever side it stands.
    have hnone (v : Value) (hv : v.first? = some first) (x : Int) : ¬Bounds v x := by
      rintro ⟨other, p, ho, hp, rfl, hs⟩
      obtain rfl : first = other := Option.some.inj (hv.symm.trans ho)
      obtain rfl : q = p := Option.some.inj (hq.symm.trans hp)
      exact absurd hs (Nat.not_le_of_lt hlarge)
    intro x y ha hb
    rcases hf with hf | hf
    · exact absurd ha (hnone a hf x)
    · exact absurd hb (hnone b hf y)

private theorem bounds_fractions : Bounds ⟨[2.5]⟩ 2 ∧ Bounds ⟨[-1.5, 7.0]⟩ (-1) := by
  have hpositive : view 2.5 = .finite false 5629499534213120 (-51) := by decide +kernel
  have hnegative : view (-1.5) = .finite true 6755399441055744 (-52) := by decide +kernel
  have hstart : fraction? 2.5 = some (5 / 2) := by
    rw [fraction?, hpositive]
    norm_num
  have hstop : fraction? (-1.5) = some (-(3 / 2)) := by
    rw [fraction?, hnegative]
    norm_num
  exact ⟨⟨_, _, rfl, hstart, by norm_num [towardZero], by decide⟩,
    ⟨_, _, rfl, hstop, by norm_num [towardZero], by decide⟩⟩

/-- Downwards from the whole part of 2.5 to that of -1.5, and from a whole part that is not safe. -/
theorem range_exact_downwards :
    (Bounds ⟨[2.5]⟩ 2 ∧ Bounds ⟨[-1.5, 7.0]⟩ (-1) ∧ (range ⟨[2.5]⟩ ⟨[-1.5, 7.0]⟩).size = 4 ∧
      (range ⟨[2.5]⟩ ⟨[-1.5, 7.0]⟩).get? 3 = some (-1.0)) ∧
    isSafe (clamp64 1e16) = false ∧ range ⟨[1e16]⟩ ⟨[-1.5, 7.0]⟩ = .empty := by
  obtain ⟨ha, hb⟩ := bounds_fractions
  obtain ⟨hsize, helements⟩ := (range_exact _ _).1 2 (-1) ha hb (by decide)
  have hview : view 1e16 = .finite false 5000000000000000 1 := by decide +kernel
  have hlarge : fraction? 1e16 = some 10000000000000000 := by
    rw [fraction?, hview]
    norm_num
  exact ⟨⟨ha, hb, hsize, (helements 3 (by decide)).1⟩,
    (range_exact ⟨[1e16]⟩ _).2.2.1 1e16 _ (.inl rfl) hlarge (by norm_num [towardZero])⟩

end VectorFormula.Function
