import VectorFormula.Proofs.Reading.Numerals
import VectorFormula.Proofs.Value.Addressing
import VectorFormula.Proofs.Value.Sequences
/-!
Slices in formulas. A slice runs between the places that its bounds address, unless its source has
a minus in front of the first: this minus has the whole sequence of bounds as its operand
(`Expression.evaluate_slice`).
-/
namespace VectorFormula

open Number (IsClosest isSafe ofInt ofOrdinal)
open Tokens (Spells)

namespace Value

def element (target : Value) (i : Int) : Except RuntimeError Float := do
  let place ← position i target.size
  return target.elements.getD place 0.0

section

variable {target : Value} {i a b : Int} {first last size ordinal : Nat}

theorem truncate?_signed_filter (hc : IsClosest i.natAbs ordinal) :
    (Number.truncate? (ofOrdinal (decide (i < 0)) ordinal)).filter isSafe =
      if isSafe i then some i else none := by
  cases hs : isSafe i with
  | true => simp [Number.truncate?_signed hc hs, hs]
  | false =>
    have hn : Number.safeLimit < i.natAbs := by simpa [isSafe] using hs
    cases ht : Number.truncate? (ofOrdinal (decide (i < 0)) ordinal) with
    | none => rfl
    | some found => simp [Number.not_isSafe_of_isClosest hc hn ht]

theorem wholePart_signed (hc : IsClosest i.natAbs ordinal) :
    wholePart (ofOrdinal (decide (i < 0)) ordinal) =
      if isSafe i then .ok i else .error (.invalidIndex (ofOrdinal (decide (i < 0)) ordinal)) := by
  rw [wholePart_eq, truncate?_signed_filter hc]
  cases isSafe i <;> rfl

theorem address_signed (hs : size ≤ sizeLimit) (hc : IsClosest i.natAbs ordinal)
    (hi : Within i size) :
    address (ofOrdinal (decide (i < 0)) ordinal) size =
      if isSafe i then .ok (place i size)
      else .error (.invalidIndex (ofOrdinal (decide (i < 0)) ordinal)) := by
  rw [address, wholePart_signed hc]
  split
  · exact position_eq_ok hs hi
  · rfl

theorem bound?_signed (hc : IsClosest i.natAbs ordinal) :
    Function.bound? (.scalar (ofOrdinal (decide (i < 0)) ordinal)) =
      if isSafe i then some i else none :=
  truncate?_signed_filter hc

theorem range_signed (ha : IsClosest a.natAbs first) (hb : IsClosest b.natAbs last) :
    Function.range (.scalar (ofOrdinal (decide (a < 0)) first))
        (.scalar (ofOrdinal (decide (b < 0)) last)) =
      if isSafe a && isSafe b && (b - a).natAbs < Function.maxSequence then
        ⟨(Function.countFrom a b).map ofInt⟩
      else empty := by
  rw [Function.range_eq, bound?_signed ha, bound?_signed hb]
  cases isSafe a <;> cases isSafe b <;>
    simp only [Bool.and_true, Bool.and_false, Bool.false_and, Bool.true_and, decide_eq_true_eq,
      if_true, Bool.false_eq_true, if_false]
  rfl

theorem pick_neg (hne : target.isEmpty = false) {positions : List Int}
    (hs : ∀ k ∈ positions, isSafe k = true) :
    target.pick [⟨positions.map fun k => -ofInt k⟩] =
      (positions.mapM fun k => target.element (-k)).map Value.mk := by
  have haddressed (k : Int) (hk : isSafe k = true) :
      target.addressed (-ofInt k) = target.element (-k) := by
    have hneg : isSafe (-k) = true := by simpa [isSafe] using hk
    simp only [addressed, address, wholePart, Number.truncate?_neg_ofInt hk, hneg, if_true]
    rfl
  rw [pick_eq hne, List.flatMap_singleton]
  refine congrArg (Except.map mk) ?_
  rw [List.mapM_map]
  induction positions with
  | nil => rfl
  | cons k rest ih =>
    obtain ⟨hk, hrest⟩ := List.forall_mem_cons.mp hs
    rw [List.mapM_cons, List.mapM_cons, ih hrest, Function.comp_apply, haddressed k hk]

theorem slice_signed (hs : target.size ≤ sizeLimit) (ha : IsClosest a.natAbs first)
    (hb : IsClosest b.natAbs last) (hia : Within a target.size) (hib : Within b target.size) :
    let result := target.slice (.scalar (ofOrdinal (decide (a < 0)) first))
      (.scalar (ofOrdinal (decide (b < 0)) last))
    (isSafe a = true ∧ isSafe b = true → ∃ found, result = .ok found ∧
      target.Runs (place a target.size) (place b target.size) found) ∧
    (¬(isSafe a = true ∧ isSafe b = true) → ∃ x, result = .error (.invalidIndex x)) := by
  intro result
  have hx := address_signed hs ha hia
  have hy := address_signed hs hb hib
  have hresult : result = _ := slice_eq hia.isEmpty_eq rfl rfl
  rw [hresult, hx, hy]
  cases isSafe a with
  | false => exact ⟨fun h => absurd h.1 Bool.false_ne_true, fun _ => ⟨_, rfl⟩⟩
  | true =>
    cases isSafe b with
    | false => exact ⟨fun h => absurd h.2 Bool.false_ne_true, fun _ => ⟨_, rfl⟩⟩
    | true =>
      have hruns := runs_between (place_lt hia) (place_lt hib)
      exact ⟨fun _ => ⟨_, rfl, hruns⟩, fun h => absurd ⟨rfl, rfl⟩ h⟩

theorem pick_negated (hia : Within a target.size) (ha : a < 0) (hf : IsClosest a.natAbs first)
    (hl : IsClosest b.natAbs last) :
    target.pick [Function.unaryMinus (Function.range (.scalar (ofOrdinal false first))
        (.scalar (ofOrdinal (decide (b < 0)) last)))] =
      if isSafe a && isSafe b && (b + a).natAbs < Function.maxSequence then
        ((Function.countFrom (-a) b).mapM fun k => target.element (-k)).map Value.mk
      else .ok empty := by
  have hrange := range_signed (show IsClosest (-a).natAbs first by rwa [Int.natAbs_neg]) hl
  have hpositive : decide (-a < 0) = false := decide_eq_false (by omega)
  have hsame : isSafe (-a) = isSafe a := by rw [isSafe, isSafe, Int.natAbs_neg]
  rw [hpositive, hsame, sub_neg_eq_add] at hrange
  rw [hrange]
  split
  · rename_i hc
    simp only [Bool.and_eq_true, decide_eq_true_eq] at hc
    have hsafe : ∀ k ∈ Function.countFrom (-a) b, isSafe k = true := by
      intro k hk
      obtain ⟨hlow, hhigh⟩ := Function.mem_countFrom hk
      simp only [isSafe, decide_eq_true_eq] at hc ⊢
      omega
    have hneg : Function.unaryMinus ⟨(Function.countFrom (-a) b).map ofInt⟩ =
        ⟨(Function.countFrom (-a) b).map fun k => -ofInt k⟩ := by
      simp [Function.unaryMinus, map]
    rw [hneg, pick_neg hia.isEmpty_eq hsafe]
  · simp only [pick, hia.isEmpty_eq]
    rfl

end

end Value

section

variable {first last : Nat} {stopTerm : Term} {start stop : Int}

def sliceSource (start stop : Int) : String :=
  "v[" ++ toString start ++ ".." ++ toString stop ++ "]"

/-- The term of a slice of `v`. A minus before the first bound has the whole sequence as its
operand, since the sequence binds tighter. -/
def sliceTerm (negative : Bool) (first : Float) (stop : Term) : Term :=
  let span := .binary .range (.binary Function.range) (.number first) stop
  .index (.named ["v"])
    [if negative then .unary .unaryMinus (.unary Function.unaryMinus) span else span]

private theorem toList_toString (i : Int) :
    (toString i).toList =
      (Decimal.signed (decide (i < 0)) (Nat.toDigits 10 i.natAbs)).toList := by
  cases i with
  | ofNat n =>
    have hn : decide (Int.ofNat n < 0) = false :=
      decide_eq_false (Int.not_lt.mpr (Int.natCast_nonneg n))
    rw [Decimal.toList_signed, hn]
    exact Nat.toList_repr
  | negSucc n =>
    have hn : decide (Int.negSucc n < 0) = true := decide_eq_true (Int.negSucc_lt_zero n)
    rw [Decimal.toList_signed, hn]
    have htext : toString (Int.negSucc n) = "-" ++ (n + 1).repr := rfl
    simp [htext, Nat.toList_repr]

private theorem tokens_sliceTerm (negative : Bool) (x : Float) (stop : Term) :
    (sliceTerm negative x stop).tokens =
      [Token.identifier ["v"]] ++ ([Token.operator .vectorStart] ++
        (((if negative then [Token.operator .minus] else []) ++ [Token.number x]) ++
          ([Token.operator .range] ++ (stop.tokens ++ [Token.operator .vectorEnd])))) := by
  cases negative <;>
    simp [sliceTerm, Term.tokens, Term.listTokens, Term.moreTokens, Operator.written]

private theorem plain_toDigits (i : Int) : Decimal.Plain (Nat.toDigits 10 i.natAbs) i.natAbs := by
  simpa using Decimal.Plain.whole (Decimal.toDigits_mem_digits i.natAbs)

private theorem exists_stopTerm (hl : IsClosest stop.natAbs last) :
    ∃ stopTerm : Term, stopTerm.IsNumeral (ofOrdinal (decide (stop < 0)) last) ∧
      Spells (stopTerm.tokens ++ [.operator .vectorEnd])
        (Tokens.ofText ((toString stop).toList ++ [']'])) .done := by
  obtain ⟨stopTerm, hterm, hspells⟩ :=
    Term.exists_isNumeral (plain_toDigits stop) hl (decide (stop < 0))
  refine ⟨stopTerm, hterm, ?_⟩
  rw [toList_toString]
  exact Tokens.spells_append.mpr ⟨_, hspells [']'] ⟨rfl, rfl⟩, Token.spells_vectorEnd⟩

private theorem spells_sliceSource (hf : IsClosest start.natAbs first)
    (hs : Spells (stopTerm.tokens ++ [.operator .vectorEnd])
      (Tokens.ofText ((toString stop).toList ++ [']'])) .done) :
    Spells (sliceTerm (decide (start < 0)) (ofOrdinal false first) stopTerm).tokens
      (Tokens.ofText (sliceSource start stop).toList) .done := by
  have hsource : (sliceSource start stop).toList = 'v' :: '[' :: ((toString start).toList ++
      ('.' :: '.' :: ((toString stop).toList ++ [']']))) := by
    simp [sliceSource]
  -- The pieces are put together from the last to the first.
  rw [hsource, tokens_sliceTerm, toList_toString start]
  generalize (toString stop).toList ++ [']'] = text at hs ⊢
  have hrange := Tokens.spells_append.mpr
    ⟨_, @Token.spells_operator ('.' :: '.' :: text) .range 2 rfl, hs⟩
  have hstart := Tokens.spells_append.mpr
    ⟨_, Token.spells_signed (plain_toDigits start) hf ⟨rfl, rfl⟩ (decide (start < 0)), hrange⟩
  generalize (Decimal.signed _ _).toList ++ '.' :: '.' :: text = text at hstart ⊢
  have hopen := Tokens.spells_append.mpr ⟨_, Token.spells_vectorStart text, hstart⟩
  have hpath : ['v'] ∈ Token.Pattern.path :=
    Token.Pattern.mem_path.mpr ⟨'v', [], rfl, Token.Pattern.mem_dotted.mpr (.inl rfl), rfl⟩
  exact Tokens.spells_append.mpr ⟨_, @Token.spells_name ('[' :: text) ['v'] hpath rfl, hopen⟩

private theorem wellGrouped_sliceTerm {x y : Float} (hs : stopTerm.IsNumeral y) (negative : Bool) :
    (sliceTerm negative x stopTerm).WellGrouped := by
  have hspan : Term.WellGrouped (.binary .range (.binary Function.range) (.number x) stopTerm) :=
    .binary (.number _) hs.wellGrouped (by simp [Term.rightEdge]) (by simp [hs.leftEdge])
  refine .index (.named _) (List.forall_mem_singleton.mpr ?_) (by simp [Term.rightEdge])
  split
  · exact .unary hspan (by simp [Term.leftEdge, Operator.captures, Operator.priority])
  · exact hspan

private theorem over_sliceTerm {x y : Float} (hs : stopTerm.IsNumeral y) (negative : Bool) :
    (sliceTerm negative x stopTerm).Over .builtin := by
  have hspan : Term.Over .builtin (.binary .range (.binary Function.range) (.number x) stopTerm) :=
    .binary rfl (by cbv) (.number _) hs.over
  refine .index (.named _) (List.forall_mem_singleton.mpr ?_)
  split
  · exact .unary rfl (by cbv) hspan
  · exact hspan

private theorem depth_sliceTerm {x y : Float} (hs : stopTerm.IsNumeral y) (negative : Bool) :
    (sliceTerm negative x stopTerm).depth < Emission.maxNesting := by
  have hd := hs.depth_le
  have hle : (sliceTerm negative x stopTerm).depth ≤ 4 := by
    cases negative <;> simp [sliceTerm, Term.depth, Term.listDepth] <;> omega
  exact Nat.lt_of_le_of_lt hle (by decide)

private theorem paths_sliceTerm {x y : Float} (hs : stopTerm.IsNumeral y) (negative : Bool) :
    (sliceTerm negative x stopTerm).program.paths = [["v"]] := by
  cases negative <;> cases hs <;> rfl

/-- Without a minus in front, a slice goes between its bounds. With one, elements are picked by the
sequence, negated. -/
private theorem evaluate_sliceTerm {x y : Float} (hs : stopTerm.IsNumeral y)
    {read : Path → Except RuntimeError Value} {target : Value} (hr : read ["v"] = .ok target)
    (negative : Bool) :
    (sliceTerm negative x stopTerm).evaluate read =
      if negative then
        target.pick [Function.unaryMinus (Function.range (.scalar x) (.scalar y))]
      else target.slice (.scalar x) (.scalar y) := by
  cases negative <;>
    simp [sliceTerm, Term.evaluate, Term.evaluateAll, Term.listSpan?, Term.span?, hr, hs.evaluate,
      Function.applied, bind, Except.bind, pure, Except.pure]

namespace Expression

/-- The source of a slice is parsed. A slice goes between its bounds, unless a minus stands in
front. -/
private theorem exists_slice (start stop : Int) :
    ∃ expression first last, Expression.parse (sliceSource start stop) = .ok expression ∧
      IsClosest start.natAbs first ∧ IsClosest stop.natAbs last ∧
      ∀ (id : Nat) (layers : List Context) (options : Options) (target : Value),
        (Scope.ofLayers layers).resolve ["v"] = some (.value target) →
        ((Formula.mk id expression).evaluate layers options).result =
          if decide (start < 0) then
            target.pick [Function.unaryMinus (Function.range (.scalar (ofOrdinal false first))
              (.scalar (ofOrdinal (decide (stop < 0)) last)))]
          else target.slice (.scalar (ofOrdinal false first))
            (.scalar (ofOrdinal (decide (stop < 0)) last)) := by
  obtain ⟨first, hf, -⟩ := Number.exists_ofInt start
  obtain ⟨last, hl, -⟩ := Number.exists_ofInt stop
  obtain ⟨stopTerm, hterm, hspells⟩ := exists_stopTerm hl
  have hstands : (sliceTerm (decide (start < 0)) (ofOrdinal false first) stopTerm).StandsFor
      .builtin (sliceSource start stop) :=
    ⟨Token.ofText?_eq_some.mpr (spells_sliceSource hf hspells), wellGrouped_sliceTerm hterm _,
      over_sliceTerm hterm _⟩
  refine ⟨_, first, last, parseWith_of_standsFor hstands (depth_sliceTerm hterm _), hf, hl, ?_⟩
  intro id layers options target hr
  have hread : Term.results (Evaluation.reading (.ofLayers layers) options options.maxDepth [id])
      ["v"] = .ok target := by
    simp only [Term.results, Evaluation.reading, Evaluation.load, hr]
    rfl
  rw [Formula.result_evaluate_term rfl]
  · exact evaluate_sliceTerm hterm hread _
  · rw [Formula.program, paths_sliceTerm hterm]
    exact List.forall_mem_singleton.mpr ⟨_, hr, by simp⟩

/-- A slice of `v` with its bounds in decimal is parsed. From a bound that is not negative it runs
to the other, which may be counted from the end, and a bound that is not safe is refused. With a
minus in front, the elements are taken one by one at the negated numbers from the bound without its
minus to the other, if there is such a sequence, and there are none otherwise. -/
theorem evaluate_slice (start stop : Int) :
    ∃ expression, Expression.parse (sliceSource start stop) = .ok expression ∧
      ∀ (id : Nat) (layers : List Context) (options : Options) (target : Value),
        (Scope.ofLayers layers).resolve ["v"] = some (.value target) →
        target.size ≤ Value.sizeLimit →
        Value.Within start target.size → Value.Within stop target.size →
        let result := ((Formula.mk id expression).evaluate layers options).result
        (0 ≤ start →
          (isSafe start = true ∧ isSafe stop = true → ∃ found, result = .ok found ∧
            target.Runs (Value.place start target.size) (Value.place stop target.size) found) ∧
          (¬(isSafe start = true ∧ isSafe stop = true) →
            ∃ x, result = .error (.invalidIndex x))) ∧
        (start < 0 → result =
          if isSafe start && isSafe stop && (stop + start).natAbs < Function.maxSequence then
            ((Function.countFrom (-start) stop).mapM fun k => target.element (-k)).map Value.mk
          else .ok .empty) := by
  obtain ⟨expression, first, last, hp, hf, hl, hresult⟩ := exists_slice start stop
  refine ⟨expression, hp, ?_⟩
  intro id layers options target hr hs hstart hstop result
  have he : result = _ := hresult id layers options target hr
  constructor
  · intro hsign
    have hplus : decide (start < 0) = false := decide_eq_false (not_lt_of_ge hsign)
    have hslice := Value.slice_signed hs hf hl hstart hstop
    rw [hplus] at he hslice
    rw [he]
    exact hslice
  · intro hsign
    rw [he, decide_eq_true hsign, if_pos rfl]
    exact Value.pick_negated hstart hsign hf hl

private theorem picked_from_end :
    (if isSafe (-1) && isSafe 2 && (2 + -1 : Int).natAbs < Function.maxSequence then
      ((Function.countFrom (- -1) 2).mapM fun k =>
        (Value.mk [7.0, 8.0, 9.0]).element (-k)).map Value.mk
    else .ok .empty) = .ok ⟨[9.0, 8.0]⟩ := by
  rw [if_pos (by decide)]
  rfl

/-- Up to the last element but one, and with the minus before the whole sequence. -/
theorem evaluate_slice_signs :
    let layers : List Context := [⟨[("v", .value ⟨[7.0, 8.0, 9.0]⟩)]⟩]
    (∃ expression, Expression.parse "v[1..-1]" = .ok expression ∧ ∃ found,
      ((Formula.mk 0 expression).evaluate layers {}).result = .ok found ∧
      found.size = 2 ∧ found.get? 0 = some 8.0 ∧ found.get? 1 = some 9.0) ∧
    ∃ expression, Expression.parse "v[-1..2]" = .ok expression ∧
      ((Formula.mk 0 expression).evaluate layers {}).result = .ok ⟨[9.0, 8.0]⟩ := by
  intro layers
  have hlimit : (Value.mk [7.0, 8.0, 9.0]).size ≤ Value.sizeLimit := by decide
  constructor
  · obtain ⟨expression, hp, he⟩ := evaluate_slice 1 (-1)
    obtain ⟨found, hfound, hruns⟩ :=
      ((he 0 layers {} ⟨[7.0, 8.0, 9.0]⟩ rfl hlimit (by decide) (by decide)).1 (by decide)).1
        (by decide)
    have hsize : found.size = 2 := hruns.size
    refine ⟨expression, hp, found, hfound, hsize, ?_, ?_⟩
    · exact hruns.get? 0 (by omega)
    · exact hruns.get? 1 (by omega)
  · obtain ⟨expression, hp, he⟩ := evaluate_slice (-1) 2
    have hresult := (he 0 layers {} _ rfl hlimit (by decide) (by decide)).2 (by decide)
    exact ⟨expression, hp, hresult.trans picked_from_end⟩

/-- A bound that is counted from the end does not start a slice: from the last of three elements to
the last, there are two. -/
theorem evaluate_slice_from_end :
    ¬ ∀ (start stop : Int) (layers : List Context) (target : Value),
      (Scope.ofLayers layers).resolve ["v"] = some (.value target) → 1 ≤ target.size →
      Value.Within start target.size → Value.Within stop target.size →
      ∀ expression, Expression.parse (sliceSource start stop) = .ok expression →
        ∃ found, ((Formula.mk 0 expression).evaluate layers {}).result = .ok found ∧
          target.Runs (Value.place start target.size) (Value.place stop target.size) found := by
  intro hall
  obtain ⟨expression, first, last, hp, hf, hl, hresult⟩ := exists_slice (-1) 2
  have hwithin : Value.Within (-1) (Value.mk [7.0, 8.0, 9.0]).size := by decide
  obtain ⟨found, hfound, hruns⟩ := hall (-1) 2 [⟨[("v", .value ⟨[7.0, 8.0, 9.0]⟩)]⟩]
    ⟨[7.0, 8.0, 9.0]⟩ rfl (by decide) hwithin (by decide) expression hp
  rw [hresult 0 _ {} _ rfl] at hfound
  have hpick := (Value.pick_negated hwithin (by decide) hf hl).trans picked_from_end
  obtain rfl := Except.ok.inj (hpick.symm.trans hfound)
  exact absurd hruns.size (by decide)

end Expression

end

end VectorFormula
