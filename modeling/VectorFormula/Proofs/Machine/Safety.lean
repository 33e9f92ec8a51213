import VectorFormula.Evaluation
import VectorFormula.Proofs.Machine.Fitting
import VectorFormula.Proofs.Machine.Refinement
import VectorFormula.Proofs.Value.Addressing
/-!
Compiled programs never get stuck: wherever one is carried out, each instruction finds the stack at
the height that the instructions before it make, and its operands on it (`evaluate_unstuck`).
-/
namespace VectorFormula

def RuntimeError.isStuck : RuntimeError → Bool
  | stackUnderflow _ | invalidStackSize _ | argumentCountMismatch _ _ => true
  | _ => false

def Unstuck {α : Type} (result : Except RuntimeError α) : Prop :=
  ∀ error, result = .error error → error.isStuck = false

private theorem Unstuck.ok {α : Type} (value : α) :
    Unstuck (.ok value : Except RuntimeError α) := nofun

theorem RuntimeError.isStuck_of_isAddressing {error : RuntimeError}
    (h : error.isAddressing = true) : error.isStuck = false := by
  cases error <;> first | rfl | cases h

/-- Whether a run reports only dispatches of one kind, gives only values of one kind, and does not
get stuck. -/
structure Run.Safe {α : Type} (dispatch : Instruction → Nat → Prop) (fits : α → Prop)
    (run : Run α) : Prop where
  dispatched : ∀ instruction depth, .dispatched instruction depth ∈ run.events →
    dispatch instruction depth
  value : ∀ value, run.result = .ok value → fits value
  unstuck : Unstuck run.result

/-- Whether a program dispatches an instruction at a stack depth: the depth is the height that the
instructions before it make, and the operands of the instruction are there. -/
def Program.Dispatches (program : Program) (instruction : Instruction) (depth : Nat) : Prop :=
  ∃ k, program[k]? = some instruction ∧ (depth : Int) = height (program.take k) ∧
    instruction.pops ≤ depth

namespace Run

variable {α β : Type} {dispatch : Instruction → Nat → Prop} {fits : α → Prop} {good : β → Prop}

private theorem Safe.pure {value : α} (h : fits value) :
    Safe dispatch fits (Pure.pure value : Run α) :=
  ⟨nofun, fun _ he => by cases he; exact h, .ok _⟩

private theorem Safe.ofExcept {result : Except RuntimeError α} (h : Unstuck result)
    (hv : ∀ value, result = .ok value → fits value) : Safe dispatch fits (Run.ofExcept result) :=
  ⟨nofun, hv, h⟩

private theorem Safe.report {event : Event}
    (h : ∀ instruction depth, event = .dispatched instruction depth →
      dispatch instruction depth) :
    Safe dispatch (fun _ => True) (Run.report event) :=
  ⟨fun instruction depth hm => h instruction depth (List.mem_singleton.mp hm).symm,
    fun _ _ => trivial, .ok ()⟩

private theorem Safe.fail (error : RuntimeError) (h : error.isStuck = false) :
    Safe dispatch fits (Run.fail error : Run α) :=
  ⟨nofun, nofun, by rintro _ ⟨⟩; exact h⟩

private theorem Safe.bind {run : Run α} {next : α → Run β} (h : Safe dispatch fits run)
    (hn : ∀ value, fits value → Safe dispatch good (next value)) :
    Safe dispatch good (run >>= next) := by
  cases hr : run.result with
  | error error =>
    rw [bind_of_error hr]
    exact ⟨h.dispatched, nofun, fun _ he => by cases he; exact h.unstuck _ hr⟩
  | ok value =>
    have hv := hn value (h.value value hr)
    rw [bind_of_ok hr]
    refine ⟨?_, hv.value, hv.unstuck⟩
    intro instruction depth hm
    rcases List.mem_append.mp hm with hm | hm
    · exact h.dispatched instruction depth hm
    · exact hv.dispatched instruction depth hm

end Run

theorem Function.call_of_accepts {function : Function} {operands : List Value}
    (h : function.arity.accepts operands.length = true) :
    ∃ value, function.call operands = .ok value := by
  match function, operands, h with
  | .unary f, [a], _ => exact ⟨f a, rfl⟩
  | .binary f, [a, b], _ => exact ⟨f a b, rfl⟩
  | .ternary f, [a, b, c], _ => exact ⟨f a b c, rfl⟩
  | .variadic f, operands, _ => exact ⟨f operands, by cases operands <;> rfl⟩

section

variable {dispatch : Instruction → Nat → Prop} {load : Path → Run Value}

namespace Instruction

private theorem apply_safe (hl : ∀ path, (load path).Safe dispatch fun _ => True)
    {instruction : Instruction} (hc : instruction.Callable) {operands : List Value}
    (hn : operands.length = instruction.pops) :
    (instruction.apply load operands).Safe dispatch fun _ => True := by
  cases instruction with
  | push value => exact .pure trivial
  | load path => exact hl path
  | call name function arity =>
    have ha : function.arity.accepts operands.length = true := by rw [hn]; exact hc
    obtain ⟨value, hv⟩ := Function.call_of_accepts ha
    exact .ofExcept (hv ▸ .ok value) fun _ _ => trivial
  | vector count => exact .pure trivial
  | index count =>
    match operands, hn with
    | target :: indices, _ =>
      have hu : Unstuck (target.pick indices) := fun _ he =>
        RuntimeError.isStuck_of_isAddressing (Value.pick_error he)
      exact .ofExcept hu fun _ _ => trivial
  | indexRange =>
    match operands, hn with
    | [target, start, stop], _ =>
      have hu : Unstuck (target.slice start stop) := fun _ he =>
        RuntimeError.isStuck_of_isAddressing (Value.slice_error he)
      exact .ofExcept hu fun _ _ => trivial

end Instruction

namespace Program

private theorem execute_safe (hl : ∀ path, (load path).Safe dispatch fun _ => True)
    (before : Program) {rest : Program} {final : Nat} (stack : Stack) (hb : Fits 0 before stack.length)
    (hr : Fits stack.length rest final)
    (hd : ∀ instruction depth, (before ++ rest).Dispatches instruction depth →
      dispatch instruction depth) :
    (execute load rest stack).Safe dispatch fun reached => reached.length = final := by
  -- The instructions move one by one to those before, which make the height of the stack.
  induction rest generalizing before stack with
  | nil =>
    cases hr
    exact .pure rfl
  | cons instruction rest ih =>
    cases hr with | cons hp hc hr =>
    have htake : stack.take instruction.pops instruction =
        .ok ((List.take instruction.pops stack).reverse, List.drop instruction.pops stack) := by
      simp [Stack.take, hp]
    have hdispatch : dispatch instruction stack.length := by
      refine hd _ _ ⟨before.length, by simp, ?_, hp⟩
      simpa using hb.height
    have hb : Fits 0 (before ++ [instruction]) (stack.length - instruction.pops + 1) :=
      .instruction instruction hc (by rwa [Nat.sub_add_cancel hp])
    rw [execute, htake]
    refine (Run.Safe.report ?_).bind ?_
    · rintro _ _ ⟨⟩
      exact hdispatch
    intro _ _
    apply (Run.Safe.ofExcept (.ok _) fun taken ht => ht).bind
    rintro _ ⟨⟩
    apply (Instruction.apply_safe hl hc (by simp [hp])).bind
    intro value _
    apply ih (before ++ [instruction])
    · simpa using hb
    · simpa using hr
    · simpa using hd

theorem run_safe (hl : ∀ path, (load path).Safe dispatch fun _ => True) {program : Program}
    (h : Fits 0 program 1)
    (hd : ∀ instruction depth, program.Dispatches instruction depth →
      dispatch instruction depth) :
    (program.run load).Safe dispatch fun _ => True := by
  have hs := execute_safe hl [] [] (.nil 0) h hd
  apply hs.bind
  intro reached hn
  obtain ⟨value, rfl⟩ := List.length_eq_one_iff.mp hn
  exact .pure trivial

theorem length_of_execute {program : Program} {stack reached : Stack}
    (h : (execute load program stack).result = .ok reached) :
    (reached.length : Int) = stack.length + program.height := by
  induction program generalizing stack with
  | nil =>
    cases h
    simp
  | cons instruction rest ih =>
    rw [execute_cons] at h
    obtain ⟨taken, ht, h⟩ := bind_eq_ok.mp h
    unfold Stack.take at ht
    split at ht <;> cases ht
    obtain ⟨value, -, h⟩ := bind_eq_ok.mp h
    have hl := ih h
    simp only [List.length_cons, List.length_drop, height_cons] at hl ⊢
    omega

/-- Where the instructions before one have been carried out, the stack has the height that they
make, and the operands of the instruction are on it. -/
theorem Fits.dispatches {program : Program} {final : Nat} (h : Fits 0 program final) {k : Nat}
    {instruction : Instruction} (hi : program[k]? = some instruction) {stack : Stack}
    (hr : (execute load (program.take k) []).result = .ok stack) :
    (stack.length : Int) = Program.height (program.take k) ∧
      instruction.pops ≤ stack.length := by
  have hl : (stack.length : Int) = Program.height (program.take k) := by
    simpa using length_of_execute hr
  have hp := h.pops_le hi
  exact ⟨hl, by omega⟩

end Program

end

namespace Evaluation

variable {dispatch : Instruction → Nat → Prop} {scope : Scope} {options : Options}
  {chain : List Nat}

private theorem readText_safe (path : Path) (text : String) :
    (readText options path text).Safe dispatch fun _ => True := by
  unfold readText
  split
  · exact .pure trivial
  · split
    · exact .fail (.typeConversion path.text text) rfl
    · exact (Run.Safe.report nofun).bind fun _ _ => .pure trivial

private theorem load_safe {enter : Path → Formula → Run Value}
    (h : ∀ path, ∀ formula ∈ scope.formulas, (enter path formula).Safe dispatch fun _ => True)
    (path : Path) : (load scope options chain enter path).Safe dispatch fun _ => True := by
  unfold load
  split
  · exact (Run.Safe.report nofun).bind fun _ _ => .pure trivial
  · exact .pure trivial
  · exact .pure trivial
  · exact .pure trivial
  · exact .pure trivial
  · exact readText_safe path _
  · rename_i formula hr
    split
    · exact .fail (.cyclicReference path.text) rfl
    · exact h path formula (Scope.mem_formulas_of_resolve hr)

theorem reading_safe (hs : ∀ formula ∈ scope.formulas, formula.program.Fits 0 1 ∧
      ∀ instruction depth, formula.program.Dispatches instruction depth →
        dispatch instruction depth) (depth : Nat) (chain : List Nat) (path : Path) :
    (reading scope options depth chain path).Safe dispatch fun _ => True := by
  induction depth generalizing chain path with
  | zero => exact load_safe (fun _ _ _ => .fail (.recursionLimit options.maxDepth) rfl) path
  | succ depth ih =>
    apply load_safe
    intro path formula hf
    obtain ⟨hfit, hd⟩ := hs formula hf
    apply (Run.Safe.report nofun).bind
    intro _ _
    exact Program.run_safe (ih (formula.id :: chain)) hfit hd

end Evaluation

namespace Formula

/-- Whether a formula may be entered when another is evaluated in layers of bindings: it is that
formula, or one that is bound. -/
def Enters (formula : Formula) (layers : List Context) (entered : Formula) : Prop :=
  entered = formula ∨ entered ∈ (Scope.ofLayers layers).formulas

private theorem fits_of_enters {formula : Formula} {layers : List Context}
    (hf : formula.expression.Compiled)
    (hl : ∀ layer ∈ layers, ∀ bound ∈ Binding.formulasOf layer.entries, bound.expression.Compiled)
    {entered : Formula} (he : formula.Enters layers entered) : entered.program.Fits 0 1 := by
  rcases he with rfl | he
  · exact hf.fits
  · obtain ⟨layer, hm, hb⟩ := Scope.mem_formulas_ofLayers.mp he
    exact (hl layer hm entered hb).fits

/-- Evaluation of compiled formulas never gets stuck, whatever the registries, the layers and the
options. Every dispatch is one of a program of these formulas, at the height that the instructions
before it make and with its operands on the stack; and so is every instruction that is reached,
however names are read. -/
theorem evaluate_unstuck (formula : Formula) (layers : List Context) (options : Options)
    (hf : formula.expression.Compiled)
    (hl : ∀ layer ∈ layers, ∀ bound ∈ Binding.formulasOf layer.entries,
      bound.expression.Compiled) :
    Unstuck (formula.evaluate layers options).result ∧
    (∀ instruction depth, .dispatched instruction depth ∈ (formula.evaluate layers options).events →
      ∃ entered, formula.Enters layers entered ∧ entered.program.Dispatches instruction depth) ∧
    ∀ entered, formula.Enters layers entered → ∀ (load : Path → Run Value) (k : Nat)
      (instruction : Instruction) (stack : Stack), entered.program[k]? = some instruction →
      (Program.execute load (entered.program.take k) []).result = .ok stack →
      (stack.length : Int) = Program.height (entered.program.take k) ∧
        instruction.pops ≤ stack.length := by
  have hfit (entered : Formula) (he : formula.Enters layers entered) :
      entered.program.Fits 0 1 := fits_of_enters hf hl he
  have hs : (formula.evaluate layers options).Safe (fun instruction depth =>
      ∃ entered, formula.Enters layers entered ∧ entered.program.Dispatches instruction depth)
      fun _ => True := by
    apply (Run.Safe.report nofun).bind
    intro _ _
    -- The strict check runs nothing, so it does not matter which names are missing.
    dsimp only
    generalize (if options.strict then (Scope.ofLayers layers).unknowns formula else []) = missing
    split
    · exact .fail (.unresolvedIdentifiers missing) rfl
    · refine Program.run_safe (Evaluation.reading_safe ?_ _ _) (hfit formula (.inl rfl)) ?_
      · intro bound hb
        exact ⟨hfit bound (.inr hb), fun _ _ hd => ⟨bound, .inr hb, hd⟩⟩
      · intro instruction depth hd
        exact ⟨formula, .inl rfl, hd⟩
  refine ⟨hs.unstuck, hs.dispatched, ?_⟩
  intro entered he load k instruction stack hi hr
  exact (hfit entered he).dispatches hi hr

/-- A vector of one name, which is bound to the formula of the empty text. -/
theorem evaluate_unstuck_vector :
    Expression.Compiled ⟨"[x]", [.load ["x"], .vector 1]⟩ ∧
    Unstuck (evaluate ⟨0, "[x]", [.load ["x"], .vector 1]⟩ [⟨[("x", .formula ⟨1, .nothing⟩)]⟩]
      {}).result := by
  have hs : Term.StandsFor .builtin "[x]" (.vector [.named ["x"]]) :=
    ⟨Token.ofText?_eq_some.mpr (by cbv), .vector (by simp [Term.WellGrouped.named]),
      .vector (by simp [Term.Over.named])⟩
  have hc : Expression.compile .builtin "[x]" = .ok [.load ["x"], .vector 1] :=
    (Expression.compile_eq_ok (by decide)).mpr ⟨_, hs, by decide, rfl⟩
  have he : Expression.Compiled ⟨"[x]", [.load ["x"], .vector 1]⟩ :=
    .parsed (by rw [Expression.parseWith, hc]; rfl)
  refine ⟨he, (evaluate_unstuck _ _ _ he ?_).1⟩
  simp [Binding.formulasOf, Binding.formulas, Expression.Compiled.nothing]

end Formula

end VectorFormula
