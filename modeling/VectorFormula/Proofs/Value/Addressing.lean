import VectorFormula.Value.Position
/-!
Addressing elements of a value. A whole number within the value addresses a place from either end, and
a slice has the elements from one place to another. Nothing but positions can go wrong.
-/
namespace VectorFormula

/-- Whether an error is about a position in a value. -/
def RuntimeError.isAddressing : RuntimeError → Bool
  | indexOutOfBounds _ _ | invalidIndex _ => true
  | _ => false

theorem exists_error_of_mapM {α β : Type} {f : α → Except RuntimeError β} {xs : List α}
    {error : RuntimeError} (h : xs.mapM f = .error error) :
    ∃ before x after, xs = before ++ x :: after ∧ (∀ y ∈ before, ∃ found, f y = .ok found) ∧
      f x = .error error := by
  induction xs with
  | nil => cases h
  | cons x rest ih =>
    rw [List.mapM_cons] at h
    rcases bind_eq_error.mp h with h | ⟨found, hx, h⟩
    · exact ⟨[], x, rest, rfl, nofun, h⟩
    · rcases bind_eq_error.mp h with h | ⟨_, -, h⟩
      · obtain ⟨before, y, after, rfl, hbefore, hy⟩ := ih h
        exact ⟨x :: before, y, after, rfl, List.forall_mem_cons.mpr ⟨⟨found, hx⟩, hbefore⟩, hy⟩
      · cases h

namespace Value

/-- The place that a whole number addresses among `size` elements, counted from the end if it is
negative. -/
def place (i : Int) (size : Nat) : Nat :=
  (if i < 0 then size + i else i).toNat

/-- Whether a value has the elements of another from one place to another, both included, backwards
if the first lies behind the second. -/
structure Runs (target : Value) (first last : Nat) (found : Value) : Prop where
  size : found.size = max first last - min first last + 1
  get? : ∀ k < found.size,
    found.get? k = target.get? (if first ≤ last then first + k else first - k)

def Within (i : Int) (size : Nat) : Prop :=
  -size ≤ i ∧ i < size

instance (i : Int) (size : Nat) : Decidable (Within i size) :=
  inferInstanceAs (Decidable (_ ∧ _))

def between (target : Value) (first last : Nat) : Value :=
  if first ≤ last then ⟨(target.elements.take (last + 1)).drop first⟩
  else ⟨((target.elements.take (first + 1)).drop last).reverse⟩

def addressed (target : Value) (x : Float) : Except RuntimeError Float := do
  let i ← address x target.size
  return target.elements.getD i 0.0

section

variable {error : RuntimeError} {target : Value} {i : Int} {first last size : Nat} {x y : Float}

theorem wholePart_eq (x : Float) :
    wholePart x = match (Number.truncate? x).filter Number.isSafe with
      | some i => .ok i
      | none => .error (.invalidIndex x) := by
  unfold wholePart
  cases Number.truncate? x with
  | none => rfl
  | some i => cases hs : Number.isSafe i <;> simp [Option.filter, hs]

theorem place_lt (hi : Within i size) : place i size < size := by
  obtain ⟨hl, hh⟩ := hi
  unfold place
  split <;> omega

theorem position_eq_ok (hs : size ≤ sizeLimit) (hi : Within i size) :
    position i size = .ok (place i size) := by
  obtain ⟨hl, hh⟩ := hi
  exact if_pos ⟨hs, by unfold offset; split <;> omega, by unfold offset; split <;> omega⟩

theorem position_eq_error (h : ¬Within i size) :
    position i size = .error (.indexOutOfBounds i size) := by
  refine if_neg fun hplace => h ?_
  obtain ⟨-, hl, hh⟩ := hplace
  unfold offset at hl hh
  constructor <;> split at hl <;> omega

theorem isEmpty_eq_false (h : 1 ≤ target.size) : target.isEmpty = false := by
  rw [isEmpty, ← Bool.not_eq_true, List.isEmpty_iff_length_eq_zero]
  exact Nat.one_le_iff_ne_zero.mp h

theorem Within.isEmpty_eq (hi : Within i target.size) : target.isEmpty = false := by
  obtain ⟨hl, hh⟩ := hi
  exact isEmpty_eq_false (by omega)

theorem pick_eq (hne : target.isEmpty = false) (indices : List Value) :
    target.pick indices = ((indices.flatMap elements).mapM target.addressed).map mk := by
  have haddressed : (fun x => do
      let i ← address x target.elements.toArray.size
      return target.elements.toArray.getD i 0.0) = target.addressed := by
    funext x
    simp [addressed, size]
  simp only [pick, hne, concat, haddressed, Bool.false_eq_true, if_false]
  cases (indices.flatMap elements).mapM target.addressed <;> rfl

theorem slice_eq {start stop : Value} (hne : target.isEmpty = false) (hx : start.first? = some x)
    (hy : stop.first? = some y) :
    target.slice start stop = (do
      let i ← address x target.size
      let j ← address y target.size
      return target.between i j) := by
  simp only [slice, hx, hy, hne]
  apply bind_congr
  intro i
  apply bind_congr
  intro j
  unfold between
  split <;> rfl

theorem runs_between (hf : first < target.size) (hl : last < target.size) :
    target.Runs first last (target.between first last) := by
  have hlength (low high : Nat) (hh : high < target.size) :
      ((target.elements.take (high + 1)).drop low).length = high + 1 - low := by
    rw [List.length_drop, List.length_take_of_le hh]
  unfold between
  split
  · rename_i hle
    refine ⟨?_, fun k hk => ?_⟩
    · rw [Value.size, hlength first last hl]
      omega
    · rw [Value.size, hlength first last hl] at hk
      rw [if_pos hle, Value.get?, List.getElem?_drop, List.getElem?_take_of_lt (by omega)]
      rfl
  · rename_i hlt
    refine ⟨?_, fun k hk => ?_⟩
    · rw [Value.size, List.length_reverse, hlength last first hf]
      omega
    · rw [Value.size, List.length_reverse, hlength last first hf] at hk
      rw [if_neg hlt, Value.get?, List.getElem?_reverse (by rw [hlength last first hf]; exact hk),
        hlength last first hf, List.getElem?_drop, List.getElem?_take_of_lt (by omega), Value.get?]
      congr 1
      omega

theorem address_error (h : address x size = .error error) :
    error.isAddressing = true := by
  rcases bind_eq_error.mp h with h | ⟨i, -, h⟩
  · unfold wholePart at h
    split at h
    · split at h <;> cases h
      rfl
    · cases h
      rfl
  · unfold position at h
    split at h <;> cases h
    rfl

theorem pick_error {indices : List Value} (h : target.pick indices = .error error) :
    error.isAddressing = true := by
  unfold pick at h
  split at h
  · cases h
  · rcases bind_eq_error.mp h with h | ⟨_, -, h⟩
    · obtain ⟨_, x, _, -, -, hx⟩ := exists_error_of_mapM h
      rcases bind_eq_error.mp hx with hx | ⟨_, -, hx⟩
      · exact address_error hx
      · cases hx
    · cases h

theorem slice_error {start stop : Value} (h : target.slice start stop = .error error) :
    error.isAddressing = true := by
  unfold slice at h
  split at h
  · split at h
    · cases h
    · rcases bind_eq_error.mp h with h | ⟨i, -, h⟩
      · exact address_error h
      · rcases bind_eq_error.mp h with h | ⟨j, -, h⟩
        · exact address_error h
        · split at h <;> cases h
  · cases h

end

end Value

end VectorFormula
