import VectorFormula.Proofs.Compilation
/-!
Stack heights. Compiled programs fit the empty stack and leave one value on it.
-/
namespace VectorFormula

namespace Instruction

def Callable : Instruction → Prop
  | call _ function arity => function.arity.accepts arity = true
  | _ => True

end Instruction

namespace Program

/-- How much higher a program leaves the stack: the sum over its instructions of the one value that
each leaves, less the operands that it takes. -/
def height : Program → Int
  | [] => 0
  | instruction :: rest => 1 - instruction.pops + height rest

@[simp] theorem height_nil : height [] = 0 := rfl

@[simp] theorem height_cons (instruction : Instruction) (rest : Program) :
    height (instruction :: rest) = 1 - instruction.pops + height rest := rfl

/-- Whether a program takes a stack from one height to another without going short of operands. -/
inductive Fits : Nat → Program → Nat → Prop
  | nil (height : Nat) : Fits height [] height
  | cons {instruction : Instruction} {rest : Program} {start final : Nat} :
    instruction.pops ≤ start → instruction.Callable →
    Fits (start - instruction.pops + 1) rest final → Fits start (instruction :: rest) final

variable {program other : Program} {start middle final : Nat}

theorem Fits.append (h : Fits start program middle) (ho : Fits middle other final) :
    Fits start (program ++ other) final := by
  induction h with
  | nil => exact ho
  | cons hp hc _ ih => exact .cons hp hc (ih ho)

theorem Fits.instruction (instruction : Instruction) (hc : instruction.Callable)
    (h : Fits start program (middle + instruction.pops)) :
    Fits start (program ++ [instruction]) (middle + 1) :=
  h.append (.cons (Nat.le_add_left _ _) hc (by rw [Nat.add_sub_cancel]; exact .nil _))

theorem Fits.height (h : Fits start program final) : (final : Int) = start + program.height := by
  induction h with
  | nil => simp
  | @cons instruction rest start final hp _ _ ih =>
    simp only [height_cons, ih]
    omega

theorem Fits.pops_le (h : Fits start program final) {k : Nat} {instruction : Instruction}
    (hi : program[k]? = some instruction) :
    (instruction.pops : Int) ≤ start + Program.height (program.take k) := by
  induction h generalizing k with
  | nil => simp at hi
  | @cons first rest start final hp _ _ ih =>
    cases k with
    | zero =>
      cases hi
      simpa using hp
    | succ k =>
      have hk := ih (by simpa using hi)
      simp only [List.take_succ_cons, height_cons]
      omega

end Program

namespace Registry

private theorem accepts_of_select {functions : List Function} {count : Nat} {function : Function}
    (h : select functions count = some function) : function.arity.accepts count = true := by
  simp only [select, Option.orElse_eq_orElse, Option.orElse_eq_or, Option.or_eq_some_iff] at h
  -- A fixed arity is the count itself; one of any count accepts it anyway.
  rcases h with he | ⟨-, he⟩
  all_goals
    have ha := List.find?_some he
    simp only [decide_eq_true_eq] at ha
    simp [ha, Arity.accepts]

theorem accepts_of_lookup {registry : Registry} {name : String} {count : Nat}
    {function : Function} (h : registry.lookup name count = .ok function) :
    function.arity.accepts count = true := by
  unfold lookup at h
  split at h
  · cases h
  · split at h
    · rename_i hs
      cases h
      exact accepts_of_select hs
    · cases h

theorem accepts_of_lookupOperator {registry : Registry} {operator : Operator} {count : Nat}
    {function : Function} (h : registry.lookupOperator operator count = .ok function) :
    function.arity.accepts count = true := by
  unfold lookupOperator at h
  split at h
  · exact accepts_of_lookup h
  · cases h

end Registry

namespace Term

open Program

variable {registry : Registry}

private theorem programs_fit {terms : List Term}
    (h : ∀ term ∈ terms, ∀ height, Fits height term.program (height + 1)) (height : Nat) :
    Fits height (programs terms) (height + terms.length) := by
  induction terms generalizing height with
  | nil => exact .nil height
  | cons term rest ih =>
    obtain ⟨ht, hr⟩ := List.forall_mem_cons.mp h
    have hp := (ht height).append (ih hr (height + 1))
    rwa [Nat.add_right_comm] at hp

theorem program_fits {term : Term} (h : term.Over registry) (height : Nat) :
    Fits height term.program (height + 1) := by
  -- A slice takes the bounds of its item apart, so they are part of the induction.
  suffices hs : (∀ height, Fits height term.program (height + 1)) ∧
      ∀ bounds, term.bounds? = some bounds → ∀ height, Fits height bounds (height + 2) from
    hs.1 height
  clear height
  induction h with
  | number value =>
    exact ⟨fun height => .cons (Nat.zero_le _) trivial (.nil _), fun _ hb => by cases hb⟩
  | named path =>
    exact ⟨fun height => .cons (Nat.zero_le _) trivial (.nil _), fun _ hb => by cases hb⟩
  | group _ ih => exact ih
  | @apply path function operands hf _ ih =>
    have hcall : Instruction.Callable (.call path.text function operands.length) :=
      Registry.accepts_of_lookup hf
    have hp (height : Nat) := Fits.instruction _ hcall
      (programs_fit (fun operand h => (ih operand h).1) height)
    refine ⟨hp, ?_⟩
    intro bounds hb height
    rcases operands with _ | ⟨start, _ | ⟨stop, _ | _⟩⟩
    · cases hb
    · cases hb
    · simp only [bounds?] at hb
      split at hb <;> cases hb
      exact ((ih start (by simp)).1 height).append ((ih stop (by simp)).1 (height + 1))
    · cases hb
  | @vector items _ ih =>
    refine ⟨?_, fun _ hb => by cases hb⟩
    intro height
    have hi := programs_fit (fun item h => (ih item h).1) height
    exact hi.instruction (.vector items.length) trivial
  | @unary operator function _ _ hf _ ih =>
    refine ⟨?_, fun _ hb => by cases hb⟩
    intro height
    exact (ih.1 height).instruction (.call operator.symbol function 1)
      (Registry.accepts_of_lookupOperator hf)
  | @binary operator function left right _ hf _ _ ihl ihr =>
    have hp (height : Nat) : Fits height (left.program ++ right.program) (height + 2) :=
      (ihl.1 height).append (ihr.1 (height + 1))
    constructor
    · intro height
      exact (hp height).instruction (.call operator.symbol function 2)
        (Registry.accepts_of_lookupOperator hf)
    · intro bounds hb height
      cases operator with
      | range => cases hb; exact hp height
      | _ => cases hb
  | @conditional function _ _ _ hf _ _ _ ihc ihy ihn =>
    refine ⟨?_, fun _ hb => by cases hb⟩
    intro height
    have hcy := (ihc.1 height).append (ihy.1 (height + 1))
    exact (hcy.append (ihn.1 (height + 2))).instruction (.call Operator.ternary.symbol function 3)
      (Registry.accepts_of_lookupOperator hf)
  | @index target items _ _ iht ihi =>
    refine ⟨?_, fun _ hb => by cases hb⟩
    intro height
    have ht := iht.1 height
    simp only [Term.program]
    split
    · rename_i bounds hb
      rcases items with _ | ⟨item, _ | ⟨_, _⟩⟩
      · cases hb
      · have hbounds := (ihi item (by simp)).2 bounds hb (height + 1)
        exact (ht.append hbounds).instruction .indexRange trivial
      · cases hb
    · have hi := programs_fit (fun item h => (ihi item h).1) (height + 1)
      rw [Nat.add_assoc, Nat.add_comm 1] at hi
      exact (ht.append hi).instruction (.index items.length) trivial

end Term

namespace Expression

private theorem blank_fits : blank.Fits 0 1 :=
  .cons (Nat.zero_le _) trivial (.nil _)

theorem Compiled.fits {expression : Expression} (h : expression.Compiled) :
    expression.program.Fits 0 1 := by
  rcases h.exists_term with hb | ⟨registry, source, term, hs, hp⟩
  · exact hb ▸ blank_fits
  · exact hp ▸ Term.program_fits hs.resolved 0

end Expression

end VectorFormula
