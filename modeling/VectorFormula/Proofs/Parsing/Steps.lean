import VectorFormula.Expression
import VectorFormula.Proofs.Stepping
/-!
Parsing step by step. An expression is read by a loop over its operands and operators; what the
loop needs of another expression waits until that is read. Every step keeps what the counters of
the state stand for, and pays for what it emits with lexemes (`Consistent.step`).
-/
namespace VectorFormula.Parsing

open Emission (bound capturedBy endsInRange maxNesting unexpected unexpectedAhead)

/-- What parsing works on: the tokens ahead and the program so far, how many expressions are being read,
and how many lexemes have been taken. -/
structure State where
  ahead : Tokens
  program : Program
  depth : Nat
  taken : Nat

inductive Listing where
  | vector
  | operands (path : Path)
  | index

inductive Task where
  | group
  | sign (operator : Operator)
  | whenTrue
  | whenFalse
  | right (operator : Operator)
  | item (listing : Listing) (count : Nat)

/-- The loop over the operands and operators of one expression: which operator it is an operand of, and
how often the loop has come round. -/
structure Loop where
  holder : Option Operator
  count : Nat

/-- Where the body of a loop goes on: at its head, after an expression that was read for it, before an
item of a list, or after the end of a list of so many items. -/
inductive Point where
  | head
  | resumed (task : Task)
  | item (listing : Listing) (count : Nat)
  | listed (listing : Listing) (count : Nat)

/-- How a step in the body of a loop goes on: round again, with another expression, elsewhere in the
body, or to the end of the loop. -/
inductive Next where
  | again
  | call (task : Task) (holder : Option Operator)
  | goto (point : Point)
  | stop

inductive Control where
  | expression (holder : Option Operator)
  | body (loop : Loop) (point : Point)
  | ended (result : Except ParseError Unit)
  | returned (result : Except ParseError Unit)
  | finished (outcome : Except ParseError Program)

structure Pending where
  loop : Loop
  task : Task

/-- A moment of parsing: what is done next, the loops that wait, the innermost in front, and the
state. -/
structure Moment where
  control : Control
  pending : List Pending
  state : State

def Listing.closing : Listing → Operator
  | operands _ => .groupEnd
  | _ => .vectorEnd

def Loop.again (loop : Loop) : Loop :=
  { loop with count := loop.count + 1 }

namespace State

def total (state : State) : Nat :=
  state.taken + state.ahead.length

def pass (state : State) (rest : Tokens) : State :=
  { state with ahead := rest, taken := state.taken + 1 }

def emit (state : State) (instruction : Instruction) : State :=
  { state with program := state.program ++ [instruction] }

/-- The state after indexing. A single item that ends by making a sequence is not made: its bounds go
to a slice. -/
def index (state : State) (count : Nat) : State :=
  if count == 1 && endsInRange state.program then
    { state with program := state.program.dropLast ++ [.indexRange] }
  else state.emit (.index count)

theorem index_ahead (state : State) (count : Nat) : (state.index count).ahead = state.ahead := by
  unfold index
  split <;> rfl

theorem index_depth (state : State) (count : Nat) : (state.index count).depth = state.depth := by
  unfold index
  split <;> rfl

theorem index_program (state : State) (count : Nat) : (state.index count).program =
    if count == 1 && endsInRange state.program then state.program.dropLast ++ [.indexRange]
    else state.program ++ [.index count] := by
  unfold index
  split <;> rfl

end State

def expect (operator : Operator) (next : Next) (state : State) : Except ParseError Next × State :=
  match state.ahead with
  | .next lexeme rest =>
    if lexeme.isOperator operator then (.ok next, state.pass rest)
    else (.error (unexpected (.the operator) lexeme), state)
  | ahead => (.error (unexpectedAhead (.the operator) ahead), state)

def call (name : String) (arity : Nat) (found : Except LookupError Function) (state : State) :
    Except ParseError Next × State :=
  match bound state.ahead found with
  | .ok function => (.ok .again, state.emit (.call name function arity))
  | .error error => (.error error, state)

def openList (listing : Listing) (state : State) : Except ParseError Next × State :=
  match state.ahead with
  | .bad error => (.error error, state)
  | .done => (.ok (.goto (.item listing 0)), state)
  | .next lexeme rest =>
    if lexeme.isOperator listing.closing then (.ok (.goto (.listed listing 0)), state.pass rest)
    else (.ok (.goto (.item listing 0)), state)

def afterItem (listing : Listing) (count : Nat) (state : State) : Except ParseError Next × State :=
  match state.ahead with
  | .bad error => (.error error, state)
  | .done => (.error (.unexpectedEnd (.commaOr listing.closing)), state)
  | .next lexeme rest =>
    if lexeme.isOperator listing.closing then
      (.ok (.goto (.listed listing (count + 1))), state.pass rest)
    else if lexeme.isOperator .comma then
      (.ok (.goto (.item listing (count + 1))), state.pass rest)
    else (.error (unexpected (.commaOr listing.closing) lexeme), state)

def afterName (path : Path) (state : State) : Except ParseError Next × State :=
  match state.ahead with
  | .bad error => (.error error, state)
  | .done => (.ok .again, state.emit (.load path))
  | .next lexeme rest =>
    if lexeme.isOperator .groupStart then openList (.operands path) (state.pass rest)
    else (.ok .again, state.emit (.load path))

def prefixed (operator : Operator) (lexeme : Lexeme) (rest : Tokens) (state : State) :
    Except ParseError Next × State :=
  match operator with
  | .groupStart => (.ok (.call .group none), state.pass rest)
  | .vectorStart => openList .vector (state.pass rest)
  | _ =>
    match operator.asPrefix? with
    | some sign => (.ok (.call (.sign sign) (some sign)), state.pass rest)
    | none => (.error (unexpected .anExpression lexeme), state)

def infixed (operator : Operator) (lexeme : Lexeme) (rest : Tokens) (state : State) :
    Except ParseError Next × State :=
  match operator with
  | .ternaryTrue => (.ok (.call .whenTrue (some .ternaryTrue)), state.pass rest)
  | .vectorStart => openList .index (state.pass rest)
  | _ =>
    if operator.isBinary then (.ok (.call (.right operator) (some operator)), state.pass rest)
    else (.error (unexpected .aBinaryOperator lexeme), state)

def round (loop : Loop) (state : State) : Except ParseError Next × State :=
  match state.ahead with
  | .bad error => (.error error, state)
  | .done =>
    if loop.count = 0 then (.error (.unexpectedEnd .anExpression), state) else (.ok .stop, state)
  | .next lexeme rest =>
    match lexeme.token with
    | .number value =>
      if loop.count = 0 then (.ok .again, (state.pass rest).emit (.push (.scalar value)))
      else (.error (unexpected .anOperator lexeme), state)
    | .identifier path =>
      if loop.count = 0 then afterName path (state.pass rest)
      else (.error (unexpected .anOperator lexeme), state)
    | .operator operator =>
      if operator.isClosing then
        if loop.count = 0 then (.error (unexpected .anExpression lexeme), state)
        else (.ok .stop, state)
      else if loop.count = 0 then prefixed operator lexeme rest state
      else if capturedBy loop.holder operator then infixed operator lexeme rest state
      else (.ok .stop, state)

def resume (registry : Registry) (state : State) : Task → Except ParseError Next × State
  | .group => expect .groupEnd .again state
  | .sign operator => call operator.symbol 1 (registry.lookupOperator operator 1) state
  | .whenTrue => expect .ternaryFalse (.call .whenFalse (some .ternaryFalse)) state
  | .whenFalse => call Operator.ternary.symbol 3 (registry.lookupOperator .ternary 3) state
  | .right operator => call operator.symbol 2 (registry.lookupOperator operator 2) state
  | .item listing count => afterItem listing count state

def close (registry : Registry) (count : Nat) (state : State) :
    Listing → Except ParseError Next × State
  | .vector => (.ok .again, state.emit (.vector count))
  | .operands path => call path.text count (registry.lookup path.text count) state
  | .index => (.ok .again, state.index count)

def advance (registry : Registry) (loop : Loop) (state : State) :
    Point → Except ParseError Next × State
  | .head => round loop state
  | .resumed task => resume registry state task
  | .item listing count => (.ok (.call (.item listing count) none), state)
  | .listed listing count => close registry count state listing

def settle (loop : Loop) (pending : List Pending) : Except ParseError Next × State → Moment
  | (.ok .again, state) => ⟨.body loop.again .head, pending, state⟩
  | (.ok (.call task holder), state) => ⟨.expression holder, ⟨loop, task⟩ :: pending, state⟩
  | (.ok (.goto point), state) => ⟨.body loop point, pending, state⟩
  | (.ok .stop, state) => ⟨.ended (.ok ()), pending, state⟩
  | (.error error, state) => ⟨.ended (.error error), pending, state⟩

/-- What becomes of a source when its expression has been read: nothing may follow. -/
def whole (state : State) : Except ParseError Program :=
  match state.ahead with
  | .done => .ok state.program
  | .bad error => .error error
  | .next lexeme _ =>
    .error (.trailingTokens (String.ofList lexeme.slice) (String.ofList lexeme.start))

/-- The next moment of parsing. An expression counts as being read from its beginning until its loop
has ended, with or without an error. -/
def step (registry : Registry) : Moment → Moment
  | ⟨.expression holder, pending, state⟩ =>
    if maxNesting ≤ state.depth then
      ⟨.returned (.error (.nestingTooDeep maxNesting state.ahead.remaining)), pending, state⟩
    else ⟨.body ⟨holder, 0⟩ .head, pending, { state with depth := state.depth + 1 }⟩
  | ⟨.body loop point, pending, state⟩ => settle loop pending (advance registry loop state point)
  | ⟨.ended result, pending, state⟩ =>
    ⟨.returned result, pending, { state with depth := state.depth - 1 }⟩
  | ⟨.returned (.ok ()), ⟨loop, task⟩ :: pending, state⟩ =>
    ⟨.body loop (.resumed task), pending, state⟩
  | ⟨.returned (.error error), _ :: pending, state⟩ => ⟨.ended (.error error), pending, state⟩
  | ⟨.returned (.ok ()), [], state⟩ => ⟨.finished (whole state), [], state⟩
  | ⟨.returned (.error error), [], state⟩ => ⟨.finished (.error error), [], state⟩
  | ⟨.finished outcome, pending, state⟩ => ⟨.finished outcome, pending, state⟩

/-- The first moment for a source. A blank one has no expression to read. -/
def start (source : String) : Moment :=
  let state : State := ⟨.ofText source.toList, [], 0, 0⟩
  if Text.isAllBlank source.toList then ⟨.finished (.ok Expression.blank), [], state⟩
  else ⟨.expression none, [], state⟩

/-- The instructions that a point owes: what has been taken for it is more than what it emitted. -/
def Point.owed : Point → Nat
  | .head => 0
  | _ => 1

def Next.owed : Next → Nat
  | .again | .stop => 0
  | .call _ _ => 1
  | .goto point => point.owed

/-- What is owed after a step; an error owes nothing. -/
def owed : Except ParseError Next → Nat
  | .ok next => next.owed
  | .error _ => 0

/-- Whether a step in the body of a loop, with so much owed before it, pays with lexemes for what it
emits and for what is owed after it. -/
structure Pays (state : State) (before : Nat) (result : Except ParseError Next × State) : Prop where
  total : result.2.total = state.total
  depth : result.2.depth = state.depth
  emitted : result.2.program.length + owed result.1 + state.taken ≤
    result.2.taken + (state.program.length + before)

section

variable {state : State} {before : Nat} {result : Except ParseError Next × State} {lexeme : Lexeme}
  {rest : Tokens}

theorem pays_stay {outcome : Except ParseError Next} (h : owed outcome ≤ before) :
    Pays state before (outcome, state) :=
  ⟨rfl, rfl, by simp only; omega⟩

theorem Pays.pass (ha : state.ahead = .next lexeme rest)
    (h : Pays (state.pass rest) (before + 1) result) : Pays state before result where
  total := by
    rw [h.total]
    simp only [State.total, State.pass, ha, Tokens.length]
    omega
  depth := h.depth
  emitted := by
    have he := h.emitted
    simp only [State.pass] at he
    omega

theorem pays_emit (instruction : Instruction) :
    Pays state 1 (.ok .again, state.emit instruction) :=
  ⟨rfl, rfl, by simp only [State.emit, List.length_append, List.length_singleton, owed, Next.owed]
                omega⟩

private theorem length_pos_of_endsInRange {program : Program} (h : endsInRange program = true) :
    0 < program.length := by
  cases program with
  | nil => cases h
  | cons => exact Nat.succ_pos _

theorem pays_index (count : Nat) : Pays state 1 (.ok .again, state.index count) := by
  unfold State.index
  split
  · rename_i h
    -- What makes the sequence is taken off again before the slice is emitted.
    have hpos := length_pos_of_endsInRange (Bool.and_eq_true_iff.mp h).2
    refine ⟨rfl, rfl, ?_⟩
    simp only [List.length_append, List.length_dropLast, List.length_singleton, owed, Next.owed]
    omega
  · exact pays_emit _

theorem pays_expect (operator : Operator) {next : Next} (h : next.owed ≤ 1) (state : State) :
    Pays state 1 (expect operator next state) := by
  unfold expect
  split
  · rename_i lexeme rest ha
    split
    · exact .pass ha (pays_stay (Nat.le_succ_of_le h))
    · exact pays_stay (Nat.zero_le _)
  · exact pays_stay (Nat.zero_le _)

theorem pays_call (name : String) (arity : Nat) (found : Except LookupError Function)
    (state : State) : Pays state 1 (call name arity found state) := by
  unfold call
  split
  · exact pays_emit _
  · exact pays_stay (Nat.zero_le _)

theorem pays_openList (listing : Listing) (state : State) :
    Pays state 1 (openList listing state) := by
  unfold openList
  split
  · exact pays_stay (Nat.zero_le _)
  · exact pays_stay (Nat.le_refl _)
  · rename_i lexeme rest ha
    split
    · exact .pass ha (pays_stay (Nat.le_succ _))
    · exact pays_stay (Nat.le_refl _)

theorem pays_afterItem (listing : Listing) (count : Nat) (state : State) :
    Pays state 1 (afterItem listing count state) := by
  unfold afterItem
  split
  · exact pays_stay (Nat.zero_le _)
  · exact pays_stay (Nat.zero_le _)
  · rename_i lexeme rest ha
    split
    · exact .pass ha (pays_stay (Nat.le_succ _))
    · split
      · exact .pass ha (pays_stay (Nat.le_succ _))
      · exact pays_stay (Nat.zero_le _)

theorem pays_afterName (path : Path) (state : State) : Pays state 1 (afterName path state) := by
  unfold afterName
  split
  · exact pays_stay (Nat.zero_le _)
  · exact pays_emit _
  · rename_i lexeme rest ha
    split
    · obtain ⟨ht, hd, he⟩ := pays_openList (.operands path) (state.pass rest)
      exact .pass ha ⟨ht, hd, Nat.le_succ_of_le he⟩
    · exact pays_emit _

theorem pays_prefixed (operator : Operator) (ha : state.ahead = .next lexeme rest) :
    Pays state 0 (prefixed operator lexeme rest state) := by
  unfold prefixed
  split
  · exact .pass ha (pays_stay (Nat.le_refl _))
  · exact .pass ha (pays_openList .vector _)
  · split
    · exact .pass ha (pays_stay (Nat.le_refl _))
    · exact pays_stay (Nat.zero_le _)

theorem pays_infixed (operator : Operator) (ha : state.ahead = .next lexeme rest) :
    Pays state 0 (infixed operator lexeme rest state) := by
  unfold infixed
  split
  · exact .pass ha (pays_stay (Nat.le_refl _))
  · exact .pass ha (pays_openList .index _)
  · split
    · exact .pass ha (pays_stay (Nat.le_refl _))
    · exact pays_stay (Nat.zero_le _)

theorem pays_round (loop : Loop) (state : State) : Pays state 0 (round loop state) := by
  have hstay (outcome : Except ParseError Next) (h : owed outcome = 0) :
      Pays state 0 (outcome, state) := pays_stay (Nat.le_of_eq h)
  unfold round
  split
  · exact hstay _ rfl
  · split <;> exact hstay _ rfl
  · rename_i lexeme rest ha
    split
    · split
      · exact .pass ha (pays_emit _)
      · exact hstay _ rfl
    · split
      · exact .pass ha (pays_afterName _ _)
      · exact hstay _ rfl
    · split
      · split <;> exact hstay _ rfl
      · split
        · exact pays_prefixed _ ha
        · split
          · exact pays_infixed _ ha
          · exact hstay _ rfl

theorem pays_resume (registry : Registry) (state : State) (task : Task) :
    Pays state 1 (resume registry state task) := by
  cases task with
  | group => exact pays_expect _ (Nat.zero_le _) state
  | whenTrue => exact pays_expect _ (Nat.le_refl _) state
  | sign | whenFalse | right => exact pays_call _ _ _ state
  | item listing count => exact pays_afterItem listing count state

theorem pays_close (registry : Registry) (count : Nat) (state : State) (listing : Listing) :
    Pays state 1 (close registry count state listing) := by
  cases listing with
  | vector => exact pays_emit _
  | operands path => exact pays_call _ _ _ state
  | index => exact pays_index count

theorem pays_advance (registry : Registry) (loop : Loop) (state : State) (point : Point) :
    Pays state point.owed (advance registry loop state point) := by
  cases point with
  | head => exact pays_round loop state
  | resumed task => exact pays_resume registry state task
  | item listing count => exact pays_stay (Nat.le_refl _)
  | listed listing count => exact pays_close registry count state listing

end

/-- Whether the innermost expression is still being read. -/
def Control.reading : Control → Nat
  | .body _ _ | .ended _ => 1
  | _ => 0

def Control.owed : Control → Nat
  | .body _ point => point.owed
  | _ => 0

/-- What a moment keeps: the counter of expressions is right, and within its limit; and all that is
emitted, or owed by a loop that waits, is paid for with lexemes. -/
structure Consistent (moment : Moment) : Prop where
  depth : moment.state.depth = moment.pending.length + moment.control.reading
  nesting : moment.state.depth ≤ maxNesting
  emitted : moment.state.program.length + moment.pending.length + moment.control.owed ≤
    moment.state.taken

section

variable {moment : Moment} {registry : Registry} {loop : Loop} {pending : List Pending}
  {result : Except ParseError Next × State}

theorem settle_state : (settle loop pending result).state = result.2 := by
  match result with
  | (.ok .again, _) | (.ok (.call _ _), _) | (.ok (.goto _), _) | (.ok .stop, _) | (.error _, _) =>
    rfl

/-- No lexeme is lost, or taken twice. -/
theorem total_step (registry : Registry) (moment : Moment) :
    (step registry moment).state.total = moment.state.total := by
  match moment with
  | ⟨.body loop point, pending, state⟩ =>
    exact (congrArg State.total settle_state).trans (pays_advance registry loop state point).total
  | ⟨.expression holder, pending, state⟩ =>
    simp only [step]
    split <;> rfl
  | ⟨.ended _, _, _⟩ | ⟨.returned (.ok ()), _ :: _, _⟩ | ⟨.returned (.error _), _ :: _, _⟩
  | ⟨.returned (.ok ()), [], _⟩ | ⟨.returned (.error _), [], _⟩ | ⟨.finished _, _, _⟩ => rfl

theorem total_iterate (registry : Registry) (moment : Moment) (count : Nat) :
    ((step registry)^[count] moment).state.total = moment.state.total :=
  Function.Iterate.rec (fun later => later.state.total = moment.state.total) rfl
    (fun later h => (total_step registry later).trans h) count

theorem Consistent.settle {point : Point} {state : State}
    (h : Consistent ⟨.body loop point, pending, state⟩) (hp : Pays state point.owed result) :
    Consistent (settle loop pending result) := by
  obtain ⟨hd, hn, he⟩ := h
  obtain ⟨-, hpd, hpe⟩ := hp
  simp only [Control.reading, Control.owed] at hd hn he
  have hdepth : result.2.depth = pending.length + 1 := hpd.trans hd
  have hnesting : result.2.depth ≤ maxNesting := hpd ▸ hn
  have hpaid : result.2.program.length + pending.length + owed result.1 ≤ result.2.taken := by omega
  match result with
  | (.ok (.call task holder), after) => exact ⟨hdepth, hnesting, hpaid⟩
  | (.ok .again, after) | (.ok .stop, after) | (.ok (.goto _), after) | (.error _, after) =>
    exact ⟨hdepth, hnesting, hpaid⟩

theorem Consistent.step (h : Consistent moment) : Consistent (step registry moment) := by
  obtain ⟨hd, hn, he⟩ := h
  match moment with
  | ⟨.body loop point, pending, state⟩ =>
    exact Consistent.settle ⟨hd, hn, he⟩ (pays_advance registry loop state point)
  | ⟨.expression holder, pending, state⟩ =>
    simp only [Parsing.step]
    split
    · exact ⟨hd, hn, he⟩
    · rename_i hlt
      exact ⟨congrArg (· + 1) hd, Nat.lt_of_not_le hlt, he⟩
  | ⟨.ended result, pending, state⟩ =>
    exact ⟨congrArg (· - 1) hd, Nat.le_trans (Nat.sub_le _ _) hn, he⟩
  | ⟨.returned (.error error), waiting :: pending, state⟩ =>
    refine ⟨hd, hn, Nat.le_trans ?_ he⟩
    exact Nat.add_le_add_right (Nat.le_succ _) 0
  | ⟨.returned (.ok ()), _ :: _, _⟩ | ⟨.returned (.ok ()), [], _⟩ | ⟨.returned (.error _), [], _⟩
  | ⟨.finished _, _, _⟩ => exact ⟨hd, hn, he⟩

theorem Consistent.iterate (h : Consistent moment) (registry : Registry) (count : Nat) :
    Consistent ((Parsing.step registry)^[count] moment) :=
  Function.Iterate.rec Consistent h (fun _ hl => hl.step) count

end

theorem consistent_start (source : String) : Consistent (start source) := by
  unfold start
  split <;> exact ⟨rfl, Nat.zero_le _, Nat.le_refl _⟩

theorem total_start (source : String) :
    (start source).state.total = (Tokens.ofText source.toList).length := by
  unfold start
  split <;> exact Nat.zero_add _

end VectorFormula.Parsing
