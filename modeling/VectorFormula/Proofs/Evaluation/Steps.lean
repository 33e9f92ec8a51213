import VectorFormula.Proofs.Machine.Persistence
import VectorFormula.Proofs.Stepping
/-!
Evaluation step by step, with the chain of the formulas that are being evaluated as a part of the
state. Every run comes back with the result of evaluation and with the chain that it began with
(`run_returns`).
-/
namespace VectorFormula.Evaluation

/-- A program on its way: the instructions that are left, and the stack. -/
structure Activation where
  rest : Program
  stack : Stack

inductive Control where
  | run (formula : Formula)
  | execute (activation : Activation)
  | executed (result : Except RuntimeError Value)
  | returned (result : Except RuntimeError Value)

/-- A moment of an evaluation: the identities of the formulas that are being evaluated, the last one
in front; what is done next; and the programs that wait for the value of a name. -/
structure Moment where
  active : List Nat
  control : Control
  callers : List Activation

def left : Stack → Except RuntimeError Value
  | [value] => .ok value
  | stack => .error (.invalidStackSize stack.length)

def entered? (scope : Scope) : Instruction → Option (Path × Formula)
  | .load path =>
    match scope.resolve path with
    | some (.formula formula) => some (path, formula)
    | _ => none
  | _ => none

def plain (scope : Scope) (options : Options) : Path → Run Value :=
  load scope options [] fun _ _ => Run.fail (.recursionLimit options.maxDepth)

/-- The moment after an instruction with its operands. A formula that it reads is run, unless a guard
refuses it; any other instruction has its value at once. -/
def perform (scope : Scope) (options : Options) (active : List Nat) (callers : List Activation)
    (instruction : Instruction) (rest : Program) (operands : List Value) (below : Stack) : Moment :=
  match entered? scope instruction with
  | some (path, formula) =>
    if active.contains formula.id then
      ⟨active, .executed (.error (.cyclicReference path.text)), callers⟩
    else if options.maxDepth < active.length then
      ⟨active, .executed (.error (.recursionLimit options.maxDepth)), callers⟩
    else ⟨active, .run formula, ⟨rest, below⟩ :: callers⟩
  | none =>
    match (instruction.apply (plain scope options) operands).result with
    | .ok value => ⟨active, .execute ⟨rest, value :: below⟩, callers⟩
    | .error error => ⟨active, .executed (.error error), callers⟩

/-- The next moment of an evaluation. A result without a caller is the last one. -/
def step (scope : Scope) (options : Options) : Moment → Moment
  | ⟨active, .run formula, callers⟩ =>
    ⟨formula.id :: active, .execute ⟨formula.program, []⟩, callers⟩
  | ⟨active, .execute ⟨[], stack⟩, callers⟩ => ⟨active, .executed (left stack), callers⟩
  | ⟨active, .execute ⟨instruction :: rest, stack⟩, callers⟩ =>
    match stack.take instruction.pops instruction with
    | .ok (operands, below) => perform scope options active callers instruction rest operands below
    | .error error => ⟨active, .executed (.error error), callers⟩
  | ⟨active, .executed result, callers⟩ => ⟨active.tail, .returned result, callers⟩
  | ⟨active, .returned (.ok value), ⟨rest, stack⟩ :: callers⟩ =>
    ⟨active, .execute ⟨rest, value :: stack⟩, callers⟩
  | ⟨active, .returned (.error error), _ :: callers⟩ => ⟨active, .executed (.error error), callers⟩
  | ⟨active, .returned result, []⟩ => ⟨active, .returned result, []⟩

/-- Whether a moment is no return to a number of callers. -/
def Moment.Inside (level : Nat) (moment : Moment) : Prop :=
  ∀ result, moment.control = .returned result → level < moment.callers.length

variable {scope : Scope} {options : Options} {active chain : List Nat} {callers : List Activation}
  {formula : Formula} {moment : Moment}

/-- What a moment keeps: the formulas that are being evaluated are different ones, and not too many; and
a formula that is to be run is not among them. -/
structure Guarded (options : Options) (moment : Moment) : Prop where
  nodup : moment.active.Nodup
  length : moment.active.length ≤ options.maxDepth + 1
  fresh : ∀ formula, moment.control = .run formula →
    formula.id ∉ moment.active ∧ moment.active.length ≤ options.maxDepth

private theorem perform_guarded (hn : active.Nodup) (hl : active.length ≤ options.maxDepth + 1)
    (instruction : Instruction) (rest : Program) (operands : List Value) (below : Stack) :
    Guarded options (perform scope options active callers instruction rest operands below) := by
  unfold perform
  split
  · rename_i path formula _
    split
    · exact ⟨hn, hl, nofun⟩
    · rename_i hm
      split
      · exact ⟨hn, hl, nofun⟩
      · rename_i hd
        refine ⟨hn, hl, ?_⟩
        rintro _ ⟨⟩
        exact ⟨mt List.contains_iff_mem.mpr hm, Nat.le_of_not_lt hd⟩
  · split <;> exact ⟨hn, hl, nofun⟩

theorem Guarded.step (h : Guarded options moment) :
    Guarded options (step scope options moment) := by
  obtain ⟨hn, hl, hf⟩ := h
  match moment with
  | ⟨active, .run formula, callers⟩ =>
    obtain ⟨hm, hd⟩ := hf formula rfl
    exact ⟨List.nodup_cons.mpr ⟨hm, hn⟩, Nat.succ_le_succ hd, nofun⟩
  | ⟨active, .execute ⟨[], stack⟩, callers⟩ => exact ⟨hn, hl, nofun⟩
  | ⟨active, .execute ⟨instruction :: rest, stack⟩, callers⟩ =>
    simp only [Evaluation.step]
    split
    · exact perform_guarded hn hl instruction rest _ _
    · exact ⟨hn, hl, nofun⟩
  | ⟨active, .executed result, callers⟩ =>
    refine ⟨hn.sublist active.tail_sublist, ?_, nofun⟩
    exact Nat.le_trans active.tail_sublist.length_le hl
  | ⟨active, .returned (.ok value), caller :: callers⟩ => exact ⟨hn, hl, nofun⟩
  | ⟨active, .returned (.error error), caller :: callers⟩ => exact ⟨hn, hl, nofun⟩
  | ⟨active, .returned (.ok value), []⟩ => exact ⟨hn, hl, nofun⟩
  | ⟨active, .returned (.error error), []⟩ => exact ⟨hn, hl, nofun⟩

theorem Guarded.iterate (h : Guarded options moment) (count : Nat) :
    Guarded options ((Evaluation.step scope options)^[count] moment) :=
  Function.Iterate.rec (Guarded options) h (fun _ hl => hl.step) count

theorem guarded_start (options : Options) (formula : Formula) :
    Guarded options ⟨[], .run formula, []⟩ :=
  ⟨List.nodup_nil, Nat.zero_le _, by rintro _ ⟨⟩; exact ⟨List.not_mem_nil, Nat.zero_le _⟩⟩

theorem entered?_eq_some {instruction : Instruction} {path : Path} :
    entered? scope instruction = some (path, formula) ↔
      instruction = .load path ∧ scope.resolve path = some (.formula formula) := by
  cases instruction with
  | load name =>
    simp only [entered?, Instruction.load.injEq]
    split
    · rename_i found hr
      constructor
      · rintro ⟨⟩
        exact ⟨rfl, hr⟩
      · rintro ⟨rfl, hf⟩
        cases hr.symm.trans hf
        rfl
    · rename_i hr
      exact ⟨nofun, by rintro ⟨rfl, hf⟩; exact absurd hf (hr formula)⟩
  | _ => simp [entered?]

theorem apply_plain {instruction : Instruction} (h : entered? scope instruction = none)
    (options : Options) (chain : List Nat) (depth : Nat) (operands : List Value) :
    (instruction.apply (reading scope options depth chain) operands).result =
      (instruction.apply (plain scope options) operands).result := by
  cases instruction with
  | load path =>
    apply load_congr rfl
    intro formula hr
    have he : entered? scope (.load path) = some (path, formula) := entered?_eq_some.mpr ⟨rfl, hr⟩
    rw [h] at he
    cases he
  | index count => cases operands <;> rfl
  | indexRange =>
    match operands with
    | [_, _, _] | [] | [_] | [_, _] | _ :: _ :: _ :: _ :: _ => rfl
  | _ => rfl

/-- Whether a run of a formula comes back within a number of steps, whatever the options are: with the
chain and to the callers that it began with, and with the result of evaluation. -/
def ReturnsWithin (scope : Scope) (active : List Nat) (formula : Formula) (bound : Nat) : Prop :=
  ∀ (options : Options) (callers : List Activation), ∃ count ≤ bound,
    Leads (step scope options) (Moment.Inside callers.length) count
      ⟨active, .run formula, callers⟩
      ⟨active, .returned
        (within scope options (options.maxDepth - active.length) active formula).result, callers⟩

/-- Whether a program on its way ends within a number of steps, whatever the options and the stack
are. -/
def EndsWithin (scope : Scope) (chain : List Nat) (rest : Program) (bound : Nat) : Prop :=
  ∀ (options : Options) (stack : Stack) (callers : List Activation), ∃ count ≤ bound,
    Leads (step scope options) (Moment.Inside callers.length) count
      ⟨chain, .execute ⟨rest, stack⟩, callers⟩
      ⟨chain, .executed ((Program.execute
        (reading scope options (options.maxDepth + 1 - chain.length) chain) rest stack).result >>=
          left), callers⟩

private theorem endsWithin_instruction {instruction : Instruction} {rest : Program} {bound : Nat}
    (he : entered? scope instruction = none) (ih : EndsWithin scope chain rest bound) :
    EndsWithin scope chain (instruction :: rest) (bound + 1) := by
  intro options stack callers
  rw [Program.execute_cons]
  cases ht : stack.take instruction.pops instruction with
  | error error =>
    refine ⟨1, Nat.succ_le_succ (Nat.zero_le bound), Leads.single ?_ nofun⟩
    simp only [step, ht]
    rfl
  | ok taken =>
    obtain ⟨operands, below⟩ := taken
    simp only [bind, Except.bind, apply_plain he]
    cases hv : (instruction.apply (plain scope options) operands).result with
    | error error =>
      refine ⟨1, Nat.succ_le_succ (Nat.zero_le bound), Leads.single ?_ nofun⟩
      simp only [step, ht, perform, he, hv]
    | ok value =>
      obtain ⟨count, hc, hl⟩ := ih options (value :: below) callers
      have hstep : step scope options ⟨chain, .execute ⟨instruction :: rest, stack⟩, callers⟩ =
          ⟨chain, .execute ⟨rest, value :: below⟩, callers⟩ := by
        simp only [step, ht, perform, he, hv]
      exact ⟨1 + count, by omega, (Leads.single hstep nofun).trans hl⟩

private theorem endsWithin_formula {path : Path} {rest : Program} {inner bound : Nat}
    (hr : scope.resolve path = some (.formula formula))
    (hf : formula.id ∉ chain → ReturnsWithin scope chain formula inner)
    (ih : EndsWithin scope chain rest bound) :
    EndsWithin scope chain (.load path :: rest) (inner + bound + 2) := by
  intro options stack callers
  have he : entered? scope (.load path) = some (path, formula) := entered?_eq_some.mpr ⟨rfl, hr⟩
  have ht : stack.take (Instruction.load path).pops (.load path) = .ok ([], stack) := rfl
  simp only [Program.execute_cons, ht, bind, Except.bind, Instruction.apply]
  by_cases hm : formula.id ∈ chain
  · refine ⟨1, by omega, Leads.single ?_ nofun⟩
    simp only [step, ht, perform, he, List.contains_iff_mem, if_pos hm, reading, load_formula hr,
      Run.result_fail]
  by_cases hd : options.maxDepth < chain.length
  · refine ⟨1, by omega, Leads.single ?_ nofun⟩
    have hdepth : options.maxDepth + 1 - chain.length = 0 := by omega
    simp only [step, ht, perform, he, List.contains_iff_mem, if_neg hm, if_pos hd, hdepth, reading,
      load_formula hr, nested, Run.result_fail]
  · have hdepth : options.maxDepth + 1 - chain.length = options.maxDepth - chain.length + 1 := by
      omega
    have hcall : step scope options ⟨chain, .execute ⟨.load path :: rest, stack⟩, callers⟩ =
        ⟨chain, .run formula, ⟨rest, stack⟩ :: callers⟩ := by
      simp only [step, ht, perform, he, List.contains_iff_mem, if_neg hm, if_neg hd]
    obtain ⟨called, hcalled, hrun⟩ := hf hm options (⟨rest, stack⟩ :: callers)
    -- The callers of the inner run are one more than those of this one.
    have hinner : Leads (step scope options) (Moment.Inside callers.length) called _ _ :=
      hrun.mono fun moment h result hres => Nat.lt_of_succ_lt (h result hres)
    have hback (result : Except RuntimeError Value) : Moment.Inside callers.length
        ⟨chain, .returned result, ⟨rest, stack⟩ :: callers⟩ := fun _ _ => Nat.lt_succ_self _
    rw [hdepth, result_reading hr hm]
    cases hv : (within scope options (options.maxDepth - chain.length) chain formula).result with
    | error error =>
      rw [hv] at hinner
      refine ⟨1 + called + 1, by omega, ((Leads.single hcall nofun).trans hinner).trans ?_⟩
      exact Leads.single rfl (hback _)
    | ok value =>
      rw [hv] at hinner
      obtain ⟨count, hc, hl⟩ := ih options (value :: stack) callers
      rw [hdepth] at hl
      refine ⟨1 + called + 1 + count, by omega,
        (((Leads.single hcall nofun).trans hinner).trans ?_).trans hl⟩
      exact Leads.single rfl (hback _)

theorem exists_endsWithin
    (h : ∀ path formula, scope.resolve path = some (.formula formula) → formula.id ∉ chain →
      ∃ bound, ReturnsWithin scope chain formula bound) (rest : Program) :
    ∃ bound, EndsWithin scope chain rest bound := by
  induction rest with
  | nil => exact ⟨1, fun options stack callers => ⟨1, Nat.le_refl 1, Leads.single rfl nofun⟩⟩
  | cons instruction rest ih =>
    obtain ⟨bound, hrest⟩ := ih
    cases he : entered? scope instruction with
    | none => exact ⟨bound + 1, endsWithin_instruction he hrest⟩
    | some found =>
      obtain ⟨path, formula⟩ := found
      obtain ⟨rfl, hr⟩ := entered?_eq_some.mp he
      have hinner : ∃ inner, formula.id ∉ chain → ReturnsWithin scope chain formula inner := by
        by_cases hm : formula.id ∈ chain
        · exact ⟨0, absurd hm⟩
        · obtain ⟨inner, hi⟩ := h path formula hr hm
          exact ⟨inner, fun _ => hi⟩
      obtain ⟨inner, hi⟩ := hinner
      exact ⟨inner + bound + 2, endsWithin_formula hr hi hrest⟩

theorem inside_run (level : Nat) (active : List Nat) (formula : Formula)
    (callers : List Activation) : Moment.Inside level ⟨active, .run formula, callers⟩ :=
  nofun

theorem inside_executed (level : Nat) (active : List Nat) (result : Except RuntimeError Value)
    (callers : List Activation) : Moment.Inside level ⟨active, .executed result, callers⟩ :=
  nofun

theorem result_run (read : Path → Run Value) (program : Program) :
    (program.run read).result = (program.execute read []).result >>= left := by
  rw [Program.run, Run.result_bind]
  congr 1
  funext stack
  rcases stack with _ | ⟨value, _ | ⟨other, below⟩⟩ <;> rfl

/-- A formula comes back to whoever runs it. What bounds its steps is not the limit on the nesting:
with every formula that is entered, fewer of the scope are not being evaluated. -/
theorem run_returns (scope : Scope) (active : List Nat) (formula : Formula) :
    ∃ bound, ReturnsWithin scope active formula bound := by
  obtain ⟨bound, hends⟩ : ∃ bound,
      EndsWithin scope (formula.id :: active) formula.program bound := by
    apply exists_endsWithin
    intro path other hr hm
    exact run_returns scope (formula.id :: active) other
  refine ⟨1 + bound + 1, fun options callers => ?_⟩
  obtain ⟨count, hc, hl⟩ := hends options [] callers
  have hresult : (within scope options (options.maxDepth - active.length) active formula).result =
      (Program.execute (reading scope options (options.maxDepth + 1 - (formula.id :: active).length)
        (formula.id :: active)) formula.program []).result >>= left := by
    rw [List.length_cons, Nat.add_sub_add_right, within, result_run]
  rw [← hresult] at hl
  have hcall : step scope options ⟨active, .run formula, callers⟩ =
      ⟨formula.id :: active, .execute ⟨formula.program, []⟩, callers⟩ := rfl
  have hentered := (Leads.single hcall (inside_run callers.length active formula callers)).trans hl
  exact ⟨1 + count + 1, by omega, hentered.trans (.single rfl (inside_executed _ _ _ callers))⟩
termination_by scope.unvisited (formula.id :: active)
decreasing_by
  exact Scope.unvisited_lt (Scope.mem_formulas_of_resolve hr)
    (Bool.eq_false_iff.mpr (mt List.contains_iff_mem.mp hm))

end VectorFormula.Evaluation
