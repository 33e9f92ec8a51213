import VectorFormula.Proofs.Number.Sign
import VectorFormula.Proofs.Registry.History
import VectorFormula.Proofs.Sites
import VectorFormula.Proofs.Token.Munch
/-!
What equality of programs leaves out. Where no function is registered under the symbol of an
operator, the name of a call and the number of its operands determine the function, and no number
in a source has a sign; so nothing is left out that matters (`compile_eq_of_beq`).
-/
namespace VectorFormula

namespace Operator

/-- The symbol of an operator is read as what is written for it. That of the whole conditional is no
token. -/
private theorem operator?_symbol {operator : Operator} (h : operator ≠ .ternary) :
    (Token.operator? operator.symbol.toList).map Prod.fst = some operator.written := by
  cases operator <;> first | rfl | exact absurd rfl h

private theorem written_eq {operator other : Operator} (h : operator ≠ .ternary)
    (ho : other ≠ .ternary) (hs : operator.symbol = other.symbol) :
    operator.written = other.written := by
  have hsome := operator?_symbol h
  rw [hs, operator?_symbol ho] at hsome
  exact (Option.some.inj hsome).symm

private theorem written_of_isBinary {operator : Operator} (h : operator.isBinary = true) :
    operator.written = operator := by
  cases operator <;> first | rfl | cases h

theorem Takes.unique {operator other : Operator} {arity : Nat} (h : operator.Takes arity)
    (ho : other.Takes arity) (hs : operator.symbol = other.symbol) : operator = other := by
  cases h with
  | sign h =>
    cases ho with
    | sign ho =>
      have hw := written_eq (by rintro rfl; cases h) (by rintro rfl; cases ho) hs
      have hp := asPrefix?_written h
      rw [hw, asPrefix?_written ho] at hp
      exact (Option.some.inj hp).symm
  | binary h =>
    cases ho with
    | binary ho =>
      have hw := written_eq (by rintro rfl; cases h) (by rintro rfl; cases ho) hs
      rwa [written_of_isBinary h, written_of_isBinary ho] at hw
  | ternary =>
    cases ho
    rfl

end Operator

namespace Registry

/-- Whether no function is registered under the symbol of an operator that stands for a function. -/
def SparesSymbols (registry : Registry) : Prop :=
  ∀ operator : Operator, operator.functionName?.isSome = true →
    registry.contains operator.symbol = false

private def startsWithLetter (name : String) : Bool :=
  (Text.lowercase name).toList.head?.any Char.isAlpha

private theorem startsWithLetter_catalog :
    ∀ entry ∈ Function.catalog, startsWithLetter entry.1 = true := by
  decide

private theorem startsWithLetter_symbol (operator : Operator) :
    startsWithLetter operator.symbol = false := by
  cases operator <;> rfl

theorem sparesSymbols_builtin : builtin.SparesSymbols := by
  intro operator _
  rw [← Bool.not_eq_true]
  intro hc
  obtain ⟨entry, hm, he⟩ := contains_ofHistory.mp hc
  have hletter := startsWithLetter_catalog entry hm
  rw [startsWithLetter, he] at hletter
  exact Bool.false_ne_true ((startsWithLetter_symbol operator).symm.trans hletter)

variable {registry : Registry} {name : String} {function : Function} {arity : Nat}

theorem contains_of_lookup (h : registry.lookup name arity = .ok function) :
    registry.contains name = true := by
  unfold lookup at h
  split at h
  · cases h
  · rename_i functions hf
    rw [contains, NameTable.contains, hf]
    rfl

theorem isSome_functionName? {operator : Operator}
    (h : registry.lookupOperator operator arity = .ok function) :
    operator.functionName?.isSome = true := by
  unfold lookupOperator at h
  split at h
  · rename_i hn
    rw [hn]
    rfl
  · cases h

theorem SparesSymbols.ne (h : registry.SparesSymbols) {operator : Operator} {other : Function}
    {count : Nat} (ho : registry.lookupOperator operator arity = .ok function)
    (hl : registry.lookup name count = .ok other) : name ≠ operator.symbol := by
  rintro rfl
  have hc := contains_of_lookup hl
  rw [h operator (isSome_functionName? ho)] at hc
  cases hc

end Registry

namespace Site

variable {registry : Registry} {tokens others : List Token}

private theorem call_beq {name other : String} {function another : Function} {arity count : Nat}
    (h : (Instruction.call name function arity == .call other another count) = true) :
    name = other ∧ arity = count := by
  have hparts :
      (name == other && arity == count && decide (function.arity = another.arity)) = true := h
  simp only [Bool.and_eq_true, beq_iff_eq] at hparts
  exact hparts.1

theorem Over.eq_of_beq (hr : registry.SparesSymbols)
    (ht : ∀ value, .number value ∈ tokens → Number.Unsigned value)
    (hto : ∀ value, .number value ∈ others → Number.Unsigned value) {site other : Site}
    (h : site.Over registry tokens) (ho : other.Over registry others)
    (he : (site.instruction == other.instruction) = true) :
    site.instruction = other.instruction := by
  cases h with
  | @number x hm =>
    cases ho with
    | @number y hmo =>
      have hxy : (x == y) = true := by
        have hlist : ([x] == [y]) = true := he
        simpa using hlist
      simp only [(ht x hm).eq_of_beq (hto y hmo) hxy]
    | _ => cases he
  | named =>
    cases ho with
    | named => exact congrArg Instruction.load (beq_iff_eq.mp he)
    | _ => cases he
  | apply hl =>
    cases ho with
    | apply hlo =>
      obtain ⟨hn, rfl⟩ := call_beq he
      rw [hn, hlo] at hl
      simp only [hn, Except.ok.inj hl]
    | operator htakes hlo => exact absurd (call_beq he).1 (hr.ne hlo hl)
    | _ => cases he
  | operator htakes hl =>
    cases ho with
    | apply hlo => exact absurd (call_beq he).1.symm (hr.ne hl hlo)
    | operator htakeso hlo =>
      obtain ⟨hs, rfl⟩ := call_beq he
      obtain rfl := htakes.unique htakeso hs
      rw [hlo] at hl
      simp only [Except.ok.inj hl]
    | _ => cases he
  | vector =>
    cases ho with
    | vector => exact congrArg Instruction.vector (beq_iff_eq.mp he)
    | _ => cases he
  | index =>
    cases ho with
    | index => exact congrArg Instruction.index (beq_iff_eq.mp he)
    | _ => cases he
  | indexRange =>
    cases ho with
    | indexRange => rfl
    | _ => cases he

end Site

namespace Program

private theorem eq_of_beq {program other : Program}
    (h : ∀ a ∈ program, ∀ b ∈ other, (a == b) = true → a = b)
    (he : (program == other) = true) : program = other := by
  induction program generalizing other with
  | nil =>
    cases other with
    | nil => rfl
    | cons => cases he
  | cons a rest ih =>
    cases other with
    | nil => cases he
    | cons b others =>
      obtain ⟨hab, hrest⟩ := Bool.and_eq_true_iff.mp he
      rw [h a List.mem_cons_self b List.mem_cons_self hab,
        ih (fun c hc d hd => h c (List.mem_cons_of_mem _ hc) d (List.mem_cons_of_mem _ hd)) hrest]

end Program

namespace Expression

variable {registry : Registry} {source other : String} {sites : List Site}

theorem HasSites.over (h : HasSites registry source sites) :
    ∃ tokens, (∀ value, .number value ∈ tokens → Number.Unsigned value) ∧
      ∀ site ∈ sites, site.Over registry tokens := by
  cases h with
  | blank _ =>
    refine ⟨[.number 0.0], ?_, List.forall_mem_singleton.mpr (.number (List.mem_singleton_self _))⟩
    intro value hm
    cases List.mem_singleton.mp hm
    exact Number.unsigned_zero
  | @term term hs =>
    refine ⟨term.tokens, ?_, hs.resolved.sites (List.Subset.refl _)⟩
    intro value hm
    obtain ⟨slice, hr⟩ := Tokens.exists_reads (Token.ofText?_eq_some.mp hs.tokens) hm
    cases hr with
    | number _ _ hx => exact hx.unsigned

/-- What is not compared makes no difference between programs that compile with one registry. -/
theorem compile_eq_of_beq (hr : registry.SparesSymbols) {program another : Program}
    (h : compile registry source = .ok program) (ho : compile registry other = .ok another)
    (he : (program == another) = true) : program = another := by
  obtain ⟨sites, hs, rfl⟩ := exists_hasSites h
  obtain ⟨others, hso, rfl⟩ := exists_hasSites ho
  obtain ⟨tokens, ht, hover⟩ := hs.over
  obtain ⟨more, hm, hovero⟩ := hso.over
  refine Program.eq_of_beq ?_ he
  intro a ha b hb
  obtain ⟨site, hsite, rfl⟩ := List.mem_map.mp ha
  obtain ⟨met, hmet, rfl⟩ := List.mem_map.mp hb
  exact (hover site hsite).eq_of_beq hr ht hm (hovero met hmet)

end Expression

end VectorFormula
