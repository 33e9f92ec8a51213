import VectorFormula.Proofs.Value.Addressing
import VectorFormula.Proofs.Value.Sequences
/-!
Picking elements. What is wrong with the first number that addresses none is the error
(`pick_exact`). A slice is what the sequence of the places between its bounds picks
(`slice_agrees`).
-/
namespace VectorFormula

section

variable {α β : Type} {f : α → Except RuntimeError β} {xs : List α}

theorem forall₂_of_mapM {ys : List β} (h : xs.mapM f = .ok ys) :
    List.Forall₂ (fun x y => f x = .ok y) xs ys := by
  induction xs generalizing ys with
  | nil =>
    cases h
    exact .nil
  | cons x rest ih =>
    rw [List.mapM_cons] at h
    obtain ⟨y, hy, h⟩ := bind_eq_ok.mp h
    obtain ⟨more, hm, h⟩ := bind_eq_ok.mp h
    cases h
    exact .cons hy (ih hm)

theorem mapM_eq_ok {g : α → β} (h : ∀ x ∈ xs, f x = .ok (g x)) : xs.mapM f = .ok (xs.map g) := by
  induction xs with
  | nil => rfl
  | cons x rest ih =>
    obtain ⟨hx, hrest⟩ := List.forall_mem_cons.mp h
    rw [List.mapM_cons, hx, ih hrest]
    rfl

end

namespace Value

open Number (clamp64 fraction? isSafe ofInt towardZero truncate?)

/-- Whether a number addresses one of `size` elements: it is finite, of a magnitude up to which whole
numbers are exact, and its whole part lies within the value. -/
def Addresses (size : Nat) (x : Float) : Prop :=
  ∃ q, fraction? x = some q ∧ |q| ≤ 2 ^ 53 - 1 ∧ Within (towardZero q) size

/-- What is wrong with a number that addresses none of `size` elements. -/
inductive Fault (size : Nat) (x : Float) : RuntimeError → Prop
  | invalid : (x.isFinite = false ∨ ∃ q, fraction? x = some q ∧ 2 ^ 53 - 1 < |q|) →
    Fault size x (.invalidIndex x)
  | outside {q : ℚ} : fraction? x = some q → |q| ≤ 2 ^ 53 - 1 → ¬Within (towardZero q) size →
    Fault size x (.indexOutOfBounds (towardZero q) size)

def Finds (target : Value) (x y : Float) : Prop :=
  Addresses target.size x ∧
    ∃ q, fraction? x = some q ∧ target.get? (place (towardZero q) target.size) = some y

def IsSigned64 (i : Int) : Prop :=
  -2 ^ 63 ≤ i ∧ i < 2 ^ 63

section

variable {target : Value} {x : Float} {q : ℚ} {i : Int} {size : Nat}

private theorem isSafe_iff (h : fraction? x = some q) :
    isSafe (towardZero q) = true ↔ |q| ≤ 2 ^ 53 - 1 := by
  have hlimit : ((Number.safeLimit : Nat) : ℚ) = 2 ^ 53 - 1 := by norm_num [Number.safeLimit]
  rw [Number.isSafe_towardZero h, hlimit]

theorem wholePart_eq_ok :
    wholePart x = .ok i ↔ ∃ q, fraction? x = some q ∧ |q| ≤ 2 ^ 53 - 1 ∧ towardZero q = i := by
  unfold wholePart
  rw [Number.truncate?_eq]
  cases h : fraction? x with
  | none => simp
  | some q =>
    simp only [Option.map_some, isSafe_iff h]
    split <;> simp [*]

theorem wholePart_error (h : ¬∃ q, fraction? x = some q ∧ |q| ≤ 2 ^ 53 - 1) :
    wholePart x = .error (.invalidIndex x) ∧
      (x.isFinite = false ∨ ∃ q, fraction? x = some q ∧ 2 ^ 53 - 1 < |q|) := by
  unfold wholePart
  rw [Number.truncate?_eq, Number.isFinite_eq]
  cases hq : fraction? x with
  | none => exact ⟨rfl, .inl rfl⟩
  | some q =>
    have hlarge : ¬|q| ≤ 2 ^ 53 - 1 := fun hle => h ⟨q, hq, hle⟩
    simp only [Option.map_some, isSafe_iff hq, if_neg hlarge, true_and]
    exact .inr ⟨q, rfl, not_le.mp hlarge⟩

theorem address_cases (hs : size ≤ sizeLimit) (x : Float) :
    (∃ q, fraction? x = some q ∧ Addresses size x ∧
      address x size = .ok (place (towardZero q) size)) ∨
    ∃ error, Fault size x error ∧ ¬Addresses size x ∧ address x size = .error error := by
  by_cases hw : ∃ q, fraction? x = some q ∧ |q| ≤ 2 ^ 53 - 1
  · obtain ⟨q, hq, hle⟩ := hw
    have hwhole : wholePart x = .ok (towardZero q) := wholePart_eq_ok.mpr ⟨q, hq, hle, rfl⟩
    rw [address, hwhole]
    by_cases hi : Within (towardZero q) size
    · exact .inl ⟨q, hq, ⟨q, hq, hle, hi⟩, position_eq_ok hs hi⟩
    · refine .inr ⟨_, .outside hq hle hi, ?_, position_eq_error hi⟩
      rintro ⟨p, hp, -, hip⟩
      obtain rfl : q = p := Option.some.inj (hq.symm.trans hp)
      exact hi hip
  · obtain ⟨herror, hfault⟩ := wholePart_error hw
    rw [address, herror]
    refine .inr ⟨_, .invalid hfault, ?_, rfl⟩
    rintro ⟨q, hq, hle, -⟩
    exact hw ⟨q, hq, hle⟩

theorem Addresses.place_lt (h : Addresses size x) (hq : fraction? x = some q) :
    place (towardZero q) size < size := by
  obtain ⟨p, hp, -, hi⟩ := h
  obtain rfl : q = p := Option.some.inj (hq.symm.trans hp)
  exact Value.place_lt hi

theorem addressed_cases (hs : target.size ≤ sizeLimit) (x : Float) :
    (∃ y, target.Finds x y ∧ target.addressed x = .ok y) ∨
    ∃ error, Fault target.size x error ∧ ¬Addresses target.size x ∧
      target.addressed x = .error error := by
  rcases address_cases hs x with ⟨q, hq, ha, hx⟩ | ⟨error, hf, ha, hx⟩
  · have hlt : place (towardZero q) target.size < target.elements.length := ha.place_lt hq
    refine .inl ⟨_, ⟨ha, q, hq, List.getElem?_eq_getElem hlt⟩, ?_⟩
    rw [addressed, hx, ← List.getD_eq_getElem _ 0.0 hlt]
    rfl
  · exact .inr ⟨error, hf, ha, by rw [addressed, hx]; rfl⟩

theorem finds_of_addressed {y : Float} (hs : target.size ≤ sizeLimit)
    (h : target.addressed x = .ok y) : target.Finds x y := by
  rcases addressed_cases hs x with ⟨other, hfinds, ho⟩ | ⟨error, -, -, ho⟩
  · obtain rfl : other = y := Except.ok.inj (ho.symm.trans h)
    exact hfinds
  · cases ho.symm.trans h

theorem fault_of_addressed {error : RuntimeError} (hs : target.size ≤ sizeLimit)
    (h : target.addressed x = .error error) :
    ¬Addresses target.size x ∧ Fault target.size x error := by
  rcases addressed_cases hs x with ⟨y, -, hy⟩ | ⟨other, hfault, ha, ho⟩
  · cases hy.symm.trans h
  · obtain rfl : other = error := Except.error.inj (ho.symm.trans h)
    exact ⟨ha, hfault⟩

theorem pick_cases (hn : 1 ≤ target.size) (hs : target.size ≤ sizeLimit) (indices : List Value) :
    (∃ found, target.pick indices = .ok found ∧
      List.Forall₂ target.Finds (indices.flatMap elements) found.elements) ∨
    ∃ error before x after, target.pick indices = .error error ∧
      indices.flatMap elements = before ++ x :: after ∧
      (∀ y ∈ before, Addresses target.size y) ∧ ¬Addresses target.size x ∧
      Fault target.size x error := by
  rw [pick_eq (isEmpty_eq_false hn)]
  cases h : (indices.flatMap elements).mapM target.addressed with
  | ok found =>
    exact .inl ⟨_, rfl, (forall₂_of_mapM h).imp fun _ _ hx => finds_of_addressed hs hx⟩
  | error error =>
    obtain ⟨before, x, after, hsplit, hbefore, hx⟩ := exists_error_of_mapM h
    refine .inr ⟨error, before, x, after, rfl, hsplit, fun y hy => ?_, fault_of_addressed hs hx⟩
    obtain ⟨found, hf⟩ := hbefore y hy
    exact (finds_of_addressed hs hf).1

theorem clamp64_of_wholePart (h : wholePart x = .ok i) : clamp64 x = i ∧ IsSigned64 i := by
  obtain ⟨q, hq, hle, rfl⟩ := wholePart_eq_ok.mp h
  have hsafe : isSafe (towardZero q) = true := (isSafe_iff hq).mpr hle
  refine ⟨(Number.isSafe_clamp64 hq).2 hsafe, ?_⟩
  simp only [isSafe, decide_eq_true_eq] at hsafe
  simp only [Number.safeLimit] at hsafe
  simp only [IsSigned64]
  omega

theorem isSigned64_offset (hs : size ≤ sizeLimit) :
    IsSigned64 size ∧ ∀ i, IsSigned64 i →
      IsSigned64 (offset i size) ∧ (i < 0 → offset i size = size + i) := by
  simp only [IsSigned64, sizeLimit, offset] at *
  refine ⟨by omega, fun i hi => ⟨by split <;> omega, fun hneg => if_pos hneg⟩⟩

end

/-- Elements are picked just if every number addresses one. There is one element for each number then,
that at its whole part, which counts from the end if it is negative. Otherwise the error is what is
wrong with the first number that addresses none. Neither a cast nor counting back from the end leaves
the signed numbers of 64 bits. -/
theorem pick_exact (target : Value) (indices : List Value) (hn : 1 ≤ target.size)
    (hs : target.size ≤ sizeLimit) :
    let numbers := indices.flatMap elements
    ((∃ found, target.pick indices = .ok found) ↔ ∀ x ∈ numbers, Addresses target.size x) ∧
    (∀ found, target.pick indices = .ok found → found.size = numbers.length ∧
      ∀ (k : Nat) (hk : k < numbers.length), ∃ q, fraction? numbers[k] = some q ∧
        found.get? k = target.get? (place (towardZero q) target.size)) ∧
    (∀ error, target.pick indices = .error error → ∃ before x after,
      numbers = before ++ x :: after ∧ (∀ y ∈ before, Addresses target.size y) ∧
      ¬Addresses target.size x ∧ Fault target.size x error) ∧
    (∀ x ∈ numbers, ∀ i, wholePart x = .ok i → clamp64 x = i ∧ IsSigned64 i) ∧
    IsSigned64 target.size ∧ ∀ i, IsSigned64 i → IsSigned64 (offset i target.size) ∧
      (i < 0 → offset i target.size = target.size + i) := by
  intro numbers
  have hcast (x : Float) (_ : x ∈ numbers) (i : Int) (hi : wholePart x = .ok i) :=
    clamp64_of_wholePart hi
  rcases pick_cases hn hs indices with ⟨found, hp, hall⟩ | ⟨error, before, x, after, hp, hsplit,
    hbefore, ha, hfault⟩
  · have hget (k : Nat) (hk : k < numbers.length) :
        Addresses target.size numbers[k] ∧ ∃ q, fraction? numbers[k] = some q ∧
          found.get? k = target.get? (place (towardZero q) target.size) := by
      have hk' : k < found.elements.length := hall.length_eq ▸ hk
      obtain ⟨ha, q, hq, hg⟩ := hall.get hk hk'
      exact ⟨ha, q, hq, (List.getElem?_eq_getElem hk').trans hg.symm⟩
    refine ⟨⟨fun _ y hy => ?_, fun _ => ⟨found, hp⟩⟩, fun other ho => ?_, fun error he => ?_, hcast,
      isSigned64_offset hs⟩
    · obtain ⟨k, hk, rfl⟩ := List.mem_iff_getElem.mp hy
      exact (hget k hk).1
    · obtain rfl : found = other := Except.ok.inj (hp.symm.trans ho)
      exact ⟨hall.length_eq.symm, fun k hk => (hget k hk).2⟩
    · cases hp.symm.trans he
  · have hnumbers : numbers = before ++ x :: after := hsplit
    have hx : x ∈ numbers := hnumbers ▸ List.mem_append_cons_self
    refine ⟨⟨fun ⟨found, hf⟩ => ?_, fun hall => ?_⟩, fun found hf => ?_, fun other ho => ?_, hcast,
      isSigned64_offset hs⟩
    · cases hp.symm.trans hf
    · exact absurd (hall x hx) ha
    · cases hp.symm.trans hf
    · obtain rfl : error = other := Except.error.inj (hp.symm.trans ho)
      exact ⟨before, x, after, hsplit, hbefore, ha, hfault⟩

/-- From either end, and one step too far. -/
theorem pick_exact_both_ends :
    let target : Value := ⟨[10.0, 20.0, 30.0]⟩
    (∃ found, target.pick [⟨[2.5]⟩, ⟨[-3.0]⟩] = .ok found ∧ found.size = 2 ∧
      found.get? 0 = some 30.0 ∧ found.get? 1 = some 10.0) ∧
    ¬∃ found, target.pick [⟨[2.5]⟩, ⟨[-4.0]⟩] = .ok found := by
  intro target
  have hfraction : fraction? 2.5 = some (5 / 2) := by decide +kernel
  have hfirst : fraction? (-3.0) = some (-3) := by decide +kernel
  have houtside : fraction? (-4.0) = some (-4) := by decide +kernel
  constructor
  · obtain ⟨hiff, hok, -⟩ := pick_exact target [⟨[2.5]⟩, ⟨[-3.0]⟩] (by decide) (by decide)
    obtain ⟨found, hfound⟩ := hiff.mpr (by
      refine List.forall_mem_cons.mpr ⟨⟨_, hfraction, ?_⟩, List.forall_mem_singleton.mpr
        ⟨_, hfirst, ?_⟩⟩ <;> decide +kernel)
    obtain ⟨hsize, hget⟩ := hok found hfound
    obtain ⟨p, hp, hlast⟩ := hget 0 (by decide)
    obtain ⟨q, hq, hhead⟩ := hget 1 (by decide)
    obtain rfl : p = 5 / 2 := Option.some.inj (hp.symm.trans hfraction)
    obtain rfl : q = -3 := Option.some.inj (hq.symm.trans hfirst)
    exact ⟨found, hfound, hsize, hlast.trans (by decide +kernel), hhead.trans (by decide +kernel)⟩
  · intro hfound
    have hall := (pick_exact target [⟨[2.5]⟩, ⟨[-4.0]⟩] (by decide) (by decide)).1.mp hfound
    obtain ⟨q, hq, -, hwithin⟩ := hall (-4.0) (by simp)
    obtain rfl : q = -4 := Option.some.inj (hq.symm.trans houtside)
    exact absurd hwithin (by decide +kernel)

section

variable {target : Value} {x : Float} {p q : Nat} {k : Int}

theorem pick_scalar (hne : target.isEmpty = false) (x : Float) :
    target.pick [.scalar x] = (target.addressed x).map scalar := by
  rw [pick_eq hne, List.flatMap_singleton, scalar, List.mapM_cons, List.mapM_nil]
  cases target.addressed x <;> rfl

theorem addressed_ofInt (hs : target.size ≤ sizeLimit) (hk : isSafe k = true) (hl : 0 ≤ k)
    (hh : k < target.size) : target.addressed (ofInt k) = .ok (target.elements.getD k.toNat 0.0) := by
  have hwhole : truncate? (ofInt k) = some k := by
    rw [Number.truncate?_eq, Number.fraction?_ofInt hk, Option.map_some, Number.towardZero_intCast]
  have hwithin : Within k target.size := ⟨by omega, hh⟩
  have hplace : place k target.size = k.toNat := by rw [place, if_neg (not_lt_of_ge hl)]
  rw [addressed, address, wholePart, hwhole]
  simp only [hk, if_true, bind, Except.bind, position_eq_ok hs hwithin, hplace]
  rfl

theorem between_eq (hp : p < target.size) (hq : q < target.size) :
    target.between p q =
      ⟨(Function.countFrom p q).map fun k => target.elements.getD k.toNat 0.0⟩ := by
  obtain ⟨hsize, hget⟩ := runs_between hp hq
  have hlength : (target.between p q).elements.length = (Function.countFrom p q).length := by
    rw [Function.length_countFrom, ← Value.size, hsize]
    omega
  have helements : (target.between p q).elements =
      (Function.countFrom p q).map fun k => target.elements.getD k.toNat 0.0 := by
    refine List.ext_getElem (by rw [List.length_map, hlength]) fun k hk hk' => ?_
    have hplace : (Function.along p q k).toNat = if p ≤ q then p + k else p - k := by
      simp only [Function.along, Nat.cast_le]
      split <;> omega
    have hfound := hget k hk
    rw [get?, List.getElem?_eq_getElem hk, get?] at hfound
    rw [List.getElem_map, Function.getElem_countFrom, hplace, List.getD_eq_getElem?_getD, ← hfound,
      Option.getD_some]
  exact congrArg mk helements

theorem bounds_ofInt (hk : isSafe k = true) : Function.Bounds (.scalar (ofInt k)) k :=
  ⟨_, _, rfl, Number.fraction?_ofInt hk, Number.towardZero_intCast k, of_decide_eq_true hk⟩

theorem not_bounds_ofInt (hk : isSafe k = false) (bound : Int) :
    ¬Function.Bounds (.scalar (ofInt k)) bound := by
  rintro ⟨first, q, hfirst, hq, rfl, hs⟩
  obtain rfl : ofInt k = first := Option.some.inj hfirst
  obtain ⟨ordinal, hc, ho⟩ := Number.exists_ofInt k
  have ht : truncate? (ofInt k) = some (towardZero q) := by
    rw [Number.truncate?_eq, hq, Option.map_some]
  rw [ho] at ht
  have hbeyond := Number.not_isSafe_of_isClosest hc (by simpa [isSafe] using hk) ht
  exact absurd hs (of_decide_eq_false hbeyond)

theorem pick_range_beyond (hne : target.isEmpty = false)
    (h : isSafe p = false ∨ isSafe q = false) :
    target.pick [Function.range (.scalar (ofInt p)) (.scalar (ofInt q))] = .ok .empty := by
  have hempty : Function.range (.scalar (ofInt p)) (.scalar (ofInt q)) = .empty := by
    refine Function.range_eq_empty fun x y hx hy => ?_
    rcases h with h | h
    · exact absurd hx (not_bounds_ofInt h x)
    · exact absurd hy (not_bounds_ofInt h y)
  rw [hempty, pick_eq hne]
  rfl

/-- The sequence between two places picks what lies between them. -/
theorem pick_range (hs : target.size ≤ sizeLimit) (hp : p < target.size) (hq : q < target.size)
    (hsp : isSafe p = true) (hsq : isSafe q = true) (hl : ((p : Int) - q).natAbs < 2 ^ 20) :
    target.pick [Function.range (.scalar (ofInt p)) (.scalar (ofInt q))] =
      .ok (target.between p q) := by
  have hnear : ((q : Int) - p).natAbs < 2 ^ 20 := by omega
  have haddressed : ∀ k ∈ Function.countFrom p q,
      target.addressed (ofInt k) = .ok (target.elements.getD k.toNat 0.0) := by
    intro k hk
    -- On the way from one place to another there are only safe places within the value.
    obtain ⟨hlow, hhigh⟩ := Function.mem_countFrom hk
    refine addressed_ofInt hs ?_ (by omega) (by omega)
    simp only [isSafe, decide_eq_true_eq] at hsp hsq ⊢
    omega
  have hmap := mapM_eq_ok haddressed
  rw [Function.range_of_bounds (bounds_ofInt hsp) (bounds_ofInt hsq) hnear,
    pick_eq (isEmpty_eq_false (Nat.lt_of_le_of_lt (Nat.zero_le p) hp)), List.flatMap_singleton,
    between_eq hp hq, List.mapM_map]
  exact congrArg (Except.map mk) hmap

theorem between_reverse (hp : p < target.size) (hq : q < target.size) :
    target.between q p = ⟨(target.between p q).elements.reverse⟩ := by
  rw [between_eq hp hq, between_eq hq hp, Function.countFrom_reverse p q, List.map_reverse]

theorem lt_of_address {size place : Nat} (h : address x size = .ok place) :
    size ≤ sizeLimit ∧ place < size := by
  obtain ⟨i, -, h⟩ := bind_eq_ok.mp h
  unfold position at h
  split at h
  · cases h
    omega
  · cases h

theorem exists_address_of_pick {found : Value} (hne : target.isEmpty = false)
    (h : target.pick [.scalar x] = .ok found) :
    ∃ place, address x target.size = .ok place ∧ target.size ≤ sizeLimit ∧
      place < target.size := by
  rw [pick_scalar hne, addressed] at h
  cases hx : address x target.size with
  | error error =>
    rw [hx] at h
    cases h
  | ok place => exact ⟨place, rfl, lt_of_address hx⟩

theorem address_of_pick_error {error : RuntimeError} (hne : target.isEmpty = false)
    (h : target.pick [.scalar x] = .error error) : address x target.size = .error error := by
  rw [pick_scalar hne, addressed] at h
  cases hx : address x target.size with
  | error other =>
    rw [hx] at h
    cases h
    rfl
  | ok place =>
    rw [hx] at h
    cases h

theorem beq_self_iff (v : Value) : (v == v) = true ↔ Float.nan ∉ v.elements := by
  have hlist (xs : List Float) : (xs == xs) = true ↔ Float.nan ∉ xs := by
    induction xs with
    | nil => simp
    | cons x rest ih =>
      rw [List.cons_beq_cons, Bool.and_eq_true, ih, Float.beq_iff_ne_nan_and_eq, List.mem_cons,
        not_or]
      simp [eq_comm]
  exact hlist v.elements

private theorem address_ends {size : Nat} (hs : size ≤ sizeLimit) (hn : 1 ≤ size) :
    address 0.5 size = .ok 0 ∧ address (-1.5) size = .ok (size - 1) := by
  have hfront : wholePart 0.5 = .ok 0 :=
    wholePart_eq_ok.mpr ⟨1 / 2, by decide +kernel, by decide +kernel, by decide +kernel⟩
  have hback : wholePart (-1.5) = .ok (-1) :=
    wholePart_eq_ok.mpr ⟨-(3 / 2), by decide +kernel, by decide +kernel, by decide +kernel⟩
  have hlast : place (-1) size = size - 1 := by
    rw [place, if_pos (by decide)]
    omega
  rw [address, address, hfront, hback]
  refine ⟨position_eq_ok hs ⟨by omega, by omega⟩, ?_⟩
  rw [← hlast]
  exact position_eq_ok hs ⟨by omega, by omega⟩

end

/-- A slice fails as picking the element at its first bound does, and else as picking that at its last
bound. Otherwise both bounds address places. If these are safe, as they are in every value of up to
`2 ^ 53` elements, and less than `2 ^ 20` apart, the slice is what the sequence from one place to the
other picks, so that the two are equal unless the undefined number is among the elements. The sequence
picks nothing if a place is not safe. The slice with its bounds exchanged is the same in reverse
order. -/
theorem slice_agrees (target start stop : Value) (a b : Float) (hn : 1 ≤ target.size)
    (ha : start.first? = some a) (hb : stop.first? = some b) :
    (∀ error, target.pick [.scalar a] = .error error → target.slice start stop = .error error) ∧
    (∀ found error, target.pick [.scalar a] = .ok found → target.pick [.scalar b] = .error error →
      target.slice start stop = .error error) ∧
    (∀ first last, target.pick [.scalar a] = .ok first → target.pick [.scalar b] = .ok last →
      ∃ p q found, address a target.size = .ok p ∧ address b target.size = .ok q ∧
        p < target.size ∧ q < target.size ∧ target.slice start stop = .ok found ∧
        (p ≤ 2 ^ 53 - 1 → q ≤ 2 ^ 53 - 1 → ((p : Int) - q).natAbs < 2 ^ 20 →
          target.pick [Function.range (.scalar (ofInt p)) (.scalar (ofInt q))] = .ok found) ∧
        (2 ^ 53 - 1 < p ∨ 2 ^ 53 - 1 < q →
          target.pick [Function.range (.scalar (ofInt p)) (.scalar (ofInt q))] = .ok .empty) ∧
        ((found == found) = true ↔ Float.nan ∉ found.elements) ∧
        target.slice stop start = .ok ⟨found.elements.reverse⟩) := by
  have hne := isEmpty_eq_false hn
  rw [slice_eq hne ha hb, slice_eq hne hb ha]
  refine ⟨fun error he => ?_, fun first error hf he => ?_, fun first last hf hl => ?_⟩
  · rw [address_of_pick_error hne he]
    rfl
  · obtain ⟨p, hp, -⟩ := exists_address_of_pick hne hf
    rw [hp, address_of_pick_error hne he]
    rfl
  · obtain ⟨p, hp, hs, hlp⟩ := exists_address_of_pick hne hf
    obtain ⟨q, hq, -, hlq⟩ := exists_address_of_pick hne hl
    rw [hp, hq]
    refine ⟨p, q, target.between p q, rfl, rfl, hlp, hlq, rfl, fun hsp hsq hd => ?_,
      fun hlarge => ?_, beq_self_iff _, ?_⟩
    · exact pick_range hs hlp hlq (decide_eq_true hsp) (decide_eq_true hsq) hd
    · have hbeyond (k : Nat) (hk : 2 ^ 53 - 1 < k) : isSafe k = false :=
        decide_eq_false (Nat.not_le_of_lt hk)
      exact pick_range_beyond hne (hlarge.imp (hbeyond p) (hbeyond q))
    · exact congrArg Except.ok (between_reverse hlp hlq)

/-- From the last element back to the first one, at bounds with fractions. -/
theorem slice_agrees_backwards :
    let target : Value := ⟨[10.0, 20.0, 30.0]⟩
    ∃ p q found, address (-1.5) 3 = .ok p ∧ address 0.5 3 = .ok q ∧
      target.slice ⟨[-1.5]⟩ ⟨[0.5, 9.0]⟩ = .ok found ∧
      target.pick [Function.range (.scalar (ofInt p)) (.scalar (ofInt q))] = .ok found ∧
      target.slice ⟨[0.5, 9.0]⟩ ⟨[-1.5]⟩ = .ok ⟨found.elements.reverse⟩ := by
  intro target
  obtain ⟨hzero, hlast⟩ := @address_ends target.size (by decide) (by decide)
  have hfirst : ∃ found, target.pick [.scalar (-1.5)] = .ok found := by
    rw [pick_scalar rfl, addressed, hlast]
    exact ⟨_, rfl⟩
  have hsecond : ∃ found, target.pick [.scalar 0.5] = .ok found := by
    rw [pick_scalar rfl, addressed, hzero]
    exact ⟨_, rfl⟩
  obtain ⟨first, hfirst⟩ := hfirst
  obtain ⟨second, hsecond⟩ := hsecond
  obtain ⟨p, q, found, hp, hq, hlp, hlq, hslice, hpick, -, -, hreverse⟩ :=
    (slice_agrees target ⟨[-1.5]⟩ ⟨[0.5, 9.0]⟩ (-1.5) 0.5 (by decide) rfl rfl).2.2 first second
      hfirst hsecond
  have hsize : target.size = 3 := rfl
  exact ⟨p, q, found, hp, hq, hslice, hpick (by omega) (by omega) (by omega), hreverse⟩

/-- A slice that is a single undefined number does not equal what is picked. And in a value of more
than `2 ^ 53` elements, no sequence picks the last one: its place is not safe. -/
theorem slice_agrees_limited :
    (¬ ∀ (target start stop found picked : Value) (a b : Float) (p q : Nat), 1 ≤ target.size →
      start.first? = some a → stop.first? = some b →
      address a target.size = .ok p → address b target.size = .ok q →
      ((p : Int) - q).natAbs < 2 ^ 20 → target.slice start stop = .ok found →
      target.pick [Function.range (.scalar (ofInt p)) (.scalar (ofInt q))] = .ok picked →
      (found == picked) = true) ∧
    ¬ ∀ (target start stop : Value) (a b : Float) (p q : Nat), 1 ≤ target.size →
      start.first? = some a → stop.first? = some b →
      address a target.size = .ok p → address b target.size = .ok q →
      ((p : Int) - q).natAbs < 2 ^ 20 →
      target.slice start stop =
        target.pick [Function.range (.scalar (ofInt p)) (.scalar (ofInt q))] := by
  constructor
  · intro hall
    let target : Value := ⟨[Float.nan]⟩
    obtain ⟨ha, -⟩ := @address_ends target.size (by decide) (by decide)
    have hslice : target.slice ⟨[0.5]⟩ ⟨[0.5]⟩ = .ok (target.between 0 0) := by
      rw [slice_eq rfl rfl rfl, ha]
      rfl
    have hpick := @pick_range target 0 0 (by decide) (by decide) (by decide) (by decide) (by decide)
      (by decide)
    have hsame := hall target _ _ _ _ 0.5 0.5 0 0 (by decide) rfl rfl ha ha (by decide) hslice hpick
    exact absurd ((beq_self_iff _).mp hsame) (not_not_intro (by simp [target, between]))
  · intro hall
    obtain ⟨target, hsize⟩ : ∃ target : Value, target.size = 2 ^ 53 + 1 :=
      ⟨⟨List.replicate (2 ^ 53 + 1) 0.0⟩, List.length_replicate⟩
    have hn : 1 ≤ target.size := by omega
    have hs : target.size ≤ sizeLimit := by
      rw [hsize]
      decide
    have ha : address (-1.5) target.size = .ok (2 ^ 53) := by
      rw [(address_ends hs hn).2, hsize, Nat.add_sub_cancel]
    have hlast : 2 ^ 53 < target.size := by omega
    have hslice : target.slice ⟨[-1.5]⟩ ⟨[-1.5]⟩ = .ok (target.between (2 ^ 53) (2 ^ 53)) := by
      rw [slice_eq (isEmpty_eq_false hn) rfl rfl, ha]
      rfl
    have hempty := @pick_range_beyond target (2 ^ 53) (2 ^ 53) (isEmpty_eq_false hn)
      (.inl (by decide))
    have hsame := hall target ⟨[-1.5]⟩ ⟨[-1.5]⟩ _ _ (2 ^ 53) (2 ^ 53) hn rfl rfl ha ha (by decide)
    rw [hslice, hempty] at hsame
    have hfound := (runs_between hlast hlast).size
    rw [Except.ok.inj hsame] at hfound
    exact absurd hfound (by decide)

end Value

end VectorFormula
