import VectorFormula.Expression
import VectorFormula.Proofs.Parsing.Steps
/-!
Parsing step by step emits what the readers of emission do (`reads_reader`), so the steps from the
start of a source end with its program (`exists_finished`).
-/
namespace VectorFormula.Parsing

open Emission (Reader bound maxNesting)
open Tokens (Leaving)

/-- Whether a moment is inside an expression that so many loops wait for: at least so many wait, and
more after a return. -/
structure Moment.Inside (level : Nat) (moment : Moment) : Prop where
  pending : level ≤ moment.pending.length
  returned : ∀ result, moment.control = .returned result → level < moment.pending.length

/-- Whether a moment is in one round of a loop behind so many others: in the body of the loop, or in an
expression that is read for it. -/
def Moment.InRound (loop : Loop) (level : Nat) (moment : Moment) : Prop :=
  (moment.pending.length = level ∧ ∃ point, moment.control = .body loop point) ∨
    level < moment.pending.length

/-- Whether parsing follows emission: from a moment it comes to where `arrive` puts what emission finds,
with the program and the tokens that emission leaves, and with the given depth. After an error only the
depth counts. -/
def Follows {α : Type} {size : Nat} (registry : Registry) (passing : Moment → Prop) (depth : Nat)
    (first : Moment) (found : Except ParseError (Leaving size α)) (program : α → Program)
    (arrive : Except ParseError α → State → Moment) : Prop :=
  ∃ count last, Leads (step registry) passing count first (arrive (found.map (·.val.1)) last) ∧
    last.depth = depth ∧
    ∀ left, found = .ok left → last.program = program left.val.1 ∧ last.ahead = left.val.2

section

variable {α β : Type} {size less : Nat} {registry : Registry} {passing weaker : Moment → Prop}
  {depth : Nat} {first : Moment} {found : Except ParseError (Leaving size α)}
  {program : α → Program} {arrive : Except ParseError α → State → Moment}
  {emitted : β → Program} {reach : Except ParseError β → State → Moment}

theorem Moment.InRound.inside {loop : Loop} {level : Nat} (h : first.InRound loop level) :
    first.Inside level := by
  obtain ⟨hp, point, hc⟩ | hp := h
  · refine ⟨Nat.le_of_eq hp.symm, fun result hr => ?_⟩
    rw [hc] at hr
    cases hr
  · exact ⟨Nat.le_of_lt hp, fun _ _ => hp⟩

theorem inside_expression (holder : Option Operator) (pending : List Pending) (state : State) :
    Moment.Inside pending.length ⟨.expression holder, pending, state⟩ :=
  ⟨Nat.le_refl _, nofun⟩

theorem inside_ended (result : Except ParseError Unit) (pending : List Pending) (state : State) :
    Moment.Inside pending.length ⟨.ended result, pending, state⟩ :=
  ⟨Nat.le_refl _, nofun⟩

theorem Follows.mono (h : Follows registry passing depth first found program arrive)
    (hp : ∀ moment, passing moment → weaker moment) :
    Follows registry weaker depth first found program arrive := by
  obtain ⟨count, last, hl, hrest⟩ := h
  exact ⟨count, last, hl.mono hp, hrest⟩

theorem Follows.step (hp : passing first)
    (h : Follows registry passing depth (step registry first) found program arrive) :
    Follows registry passing depth first found program arrive := by
  obtain ⟨count, last, hl, hrest⟩ := h
  exact ⟨1 + count, last, (Leads.single rfl hp).trans hl, hrest⟩

theorem follows_ok (left : Leaving size α) (last : State)
    (hf : first = arrive (.ok left.val.1) last) (hd : last.depth = depth)
    (hp : last.program = program left.val.1) (ha : last.ahead = left.val.2) :
    Follows registry passing depth first (.ok left) program arrive :=
  ⟨0, last, hf ▸ .refl _, hd, by rintro _ ⟨⟩; exact ⟨hp, ha⟩⟩

theorem follows_error (error : ParseError) (last : State)
    (hf : first = arrive (.error error) last) (hd : last.depth = depth) :
    Follows registry passing depth first (.error error : Except ParseError (Leaving size α)) program
      arrive :=
  ⟨0, last, hf ▸ .refl _, hd, nofun⟩

theorem Follows.next {before : Except ParseError (Leaving less β)}
    (h : Follows registry passing depth first before emitted reach)
    (hok : ∀ left last, before = .ok left → last.depth = depth →
      last.program = emitted left.val.1 → last.ahead = left.val.2 →
      Follows registry passing depth (reach (.ok left.val.1) last) found program arrive)
    (herror : ∀ error last, before = .error error → last.depth = depth →
      Follows registry passing depth (reach (.error error) last) found program arrive) :
    Follows registry passing depth first found program arrive := by
  obtain ⟨count, last, hl, hd, hleft⟩ := h
  obtain ⟨more, final, hm, hrest⟩ :
      Follows registry passing depth (reach (before.map (·.val.1)) last) found program arrive := by
    cases before with
    | error error => exact herror error last rfl hd
    | ok left =>
      obtain ⟨hp, ha⟩ := hleft left rfl
      exact hok left last rfl hd hp ha
  exact ⟨count + more, final, hl.trans hm, hrest⟩

theorem Follows.bind {before : Except ParseError (Leaving less β)}
    {rest : Leaving less β → Except ParseError (Leaving size α)}
    (h : Follows registry passing depth first before emitted reach)
    (hok : ∀ left last, last.depth = depth → last.program = emitted left.val.1 →
      last.ahead = left.val.2 →
      Follows registry passing depth (reach (.ok left.val.1) last) (rest left) program arrive)
    (herror : ∀ error last, reach (.error error) last = arrive (.error error) last) :
    Follows registry passing depth first (before >>= rest) program arrive := by
  refine h.next ?_ ?_
  · rintro left last rfl
    exact hok left last
  · rintro error last rfl hd
    exact follows_error error last (herror error last) hd

end

/-- Whether one round of a loop follows emission, to where the loop goes on with what emission finds. -/
def Rounds {α : Type} {size : Nat} (registry : Registry) (loop : Loop) (pending : List Pending)
    (depth : Nat) (first : Moment) (found : Except ParseError (Leaving size α)) (program : α → Program)
    (next : α → Next) : Prop :=
  Follows registry (Moment.InRound loop pending.length) depth first found program
    fun result last => settle loop pending (result.map next, last)

/-- Whether every expression that is begun with a depth follows a reader, up to its return. -/
def Reads (registry : Registry) (inner : Reader) (depth : Nat) : Prop :=
  ∀ (holder : Option Operator) (pending : List Pending) (state : State), state.depth = depth →
    Follows registry (Moment.Inside pending.length) depth ⟨.expression holder, pending, state⟩
      (inner holder state.program state.ahead) id
      fun result last => ⟨.returned (result.map fun _ => ()), pending, last⟩

section

variable {registry : Registry} {inner : Reader} {depth : Nat} {loop : Loop} {pending : List Pending}
  {state : State}

theorem inRound_body (loop : Loop) (point : Point) (pending : List Pending) (state : State) :
    Moment.InRound loop pending.length ⟨.body loop point, pending, state⟩ :=
  .inl ⟨rfl, point, rfl⟩

section

variable {α : Type} {size : Nat} {found : Except ParseError (Leaving size α)} {program : α → Program}
  {next : α → Next}

theorem Rounds.body {point : Point}
    (h : Rounds registry loop pending depth (settle loop pending (advance registry loop state point))
      found program next) :
    Rounds registry loop pending depth ⟨.body loop point, pending, state⟩ found program next :=
  Follows.step (inRound_body loop point pending state) h

theorem Rounds.inside {first : Moment}
    (h : Rounds registry loop pending depth first found program next) :
    Follows registry (Moment.Inside pending.length) depth first found program
      fun result last => settle loop pending (result.map next, last) :=
  Follows.mono h fun _ hm => hm.inside

end

theorem rounds_call (h : Reads registry inner depth) (task : Task) (holder : Option Operator)
    (hd : state.depth = depth) :
    Rounds registry loop pending depth ⟨.expression holder, ⟨loop, task⟩ :: pending, state⟩
      (inner holder state.program state.ahead) id fun _ => .goto (.resumed task) := by
  have hread := h holder (⟨loop, task⟩ :: pending) state hd
  have hback (result : Except ParseError Unit) (last : State) :
      Moment.InRound loop pending.length ⟨.returned result, ⟨loop, task⟩ :: pending, last⟩ :=
    .inr (Nat.lt_succ_self _)
  refine (hread.mono fun _ hm => Or.inr hm.pending).next ?_ ?_
  · intro left last hf hl hp ha
    rw [hf]
    exact .step (hback _ last) (follows_ok left last rfl hl hp ha)
  · intro error last hf hl
    rw [hf]
    exact .step (hback _ last) (follows_error error last rfl hl)

theorem rounds_items (h : Reads registry inner depth) (loop : Loop) (pending : List Pending)
    (listing : Listing) (count : Nat) (state : State) (hd : state.depth = depth) :
    Rounds registry loop pending depth ⟨.body loop (.item listing count), pending, state⟩
      (Emission.items inner listing.closing count state.program state.ahead) Prod.snd
      fun found => .goto (.listed listing found.1) := by
  refine .body (Follows.next (rounds_call h (.item listing count) none hd) ?_ ?_)
  · rintro ⟨⟨program, ahead⟩, fewer⟩ last hi hl (hp : last.program = program)
      (ha : last.ahead = ahead)
    rw [Emission.items, hi]
    refine Rounds.body ?_
    simp only [advance, resume, afterItem, ha]
    cases ahead with
    | done => exact follows_error _ last rfl hl
    | bad error => exact follows_error _ last rfl hl
    | next lexeme rest =>
      simp only
      split
      · exact follows_ok _ (last.pass rest) rfl hl hp rfl
      · split
        · -- The item has left fewer tokens, and so does the comma.
          have hmore := rounds_items h loop pending listing (count + 1) (last.pass rest) hl
          refine Follows.bind (hp ▸ hmore) ?_ fun _ _ => rfl
          exact fun left final hf hp ha => follows_ok (left.widen _) final rfl hf hp ha
        · exact follows_error _ last rfl hl
  · intro error last hi hl
    rw [Emission.items, hi]
    exact follows_error error last rfl hl
termination_by state.ahead.length
decreasing_by exact Nat.lt_of_succ_lt fewer

theorem rounds_openList (h : Reads registry inner depth) (listing : Listing) (state : State)
    (hd : state.depth = depth) :
    Rounds registry loop pending depth (settle loop pending (openList listing state))
      (Emission.list inner listing.closing state.program state.ahead) Prod.snd
      fun found => .goto (.listed listing found.1) := by
  have hitems := rounds_items h loop pending listing 0 state hd
  obtain ⟨ahead, emitted, level, taken⟩ := state
  cases ahead with
  | done => exact hitems
  | bad error => exact follows_error error _ rfl hd
  | next lexeme rest =>
    simp only [openList, Emission.list]
    split
    · exact follows_ok _ _ rfl hd rfl rfl
    · exact hitems

section

variable {α : Type} {size : Nat} {program : α → Program} {next : α → Next} {ahead : Tokens}

theorem rounds_expect (operator : Operator) (following : Next) (state : State)
    (ha : state.ahead = ahead) (hd : state.depth = depth)
    {rest : {rest : Tokens // rest.length < ahead.length} → Except ParseError (Leaving size α)}
    (h : ∀ passed, Rounds registry loop pending depth
      (settle loop pending (.ok following, state.pass passed.val)) (rest passed) program next) :
    Rounds registry loop pending depth (settle loop pending (expect operator following state))
      (Emission.expect operator ahead >>= rest) program next := by
  obtain ⟨given, emitted, level, taken⟩ := state
  obtain rfl : given = ahead := ha
  cases given with
  | done => exact follows_error _ _ rfl hd
  | bad error => exact follows_error error _ rfl hd
  | next lexeme others =>
    simp only [expect, Emission.expect]
    split
    · exact h ⟨others, _⟩
    · exact follows_error _ _ rfl hd

theorem rounds_function (name : String) (arity : Nat) (found : Except LookupError Function)
    (state : State) (ha : state.ahead = ahead) (hd : state.depth = depth)
    (left : Function → Leaving size Program)
    (hleft : ∀ function, (left function).val =
      (state.program ++ [.call name function arity], ahead)) :
    Rounds registry loop pending depth (settle loop pending (call name arity found state))
      (bound ahead found >>= fun function => pure (left function)) id fun _ => .again := by
  subst ha
  unfold call
  cases bound state.ahead found with
  | error error => exact follows_error error state rfl hd
  | ok function =>
    refine follows_ok (left function) (state.emit _) rfl hd ?_ ?_
    · rw [hleft]; rfl
    · rw [hleft]; rfl

end

theorem rounds_afterName (h : Reads registry inner depth) (path : Path) (state : State)
    (hd : state.depth = depth) :
    Rounds registry loop pending depth (settle loop pending (afterName path state))
      (Emission.afterName registry inner path state.program state.ahead) id fun _ => .again := by
  obtain ⟨ahead, emitted, level, taken⟩ := state
  cases ahead with
  | done => exact follows_ok _ _ rfl hd rfl rfl
  | bad error => exact follows_error error _ rfl hd
  | next lexeme rest =>
    simp only [afterName, Emission.afterName]
    split
    · refine Follows.bind (rounds_openList h (.operands path) _ hd) ?_ fun _ _ => rfl
      rintro ⟨⟨⟨arity, program⟩, ahead⟩, fewer⟩ last hl hp ha
      refine Rounds.body ?_
      refine rounds_function path.text arity _ last ha hl (fun function => ⟨(_, ahead), _⟩) ?_
      intro function
      rw [hp]
    · exact follows_ok _ _ rfl hd rfl rfl

theorem rounds_prefixed (h : Reads registry inner depth) (operator : Operator) (lexeme : Lexeme)
    (rest : Tokens) (state : State) (hd : state.depth = depth) :
    Rounds registry loop pending depth (settle loop pending (prefixed operator lexeme rest state))
      (Emission.prefixed registry inner operator lexeme state.program rest) id fun _ => .again := by
  unfold prefixed Emission.prefixed
  split
  · refine Follows.bind (rounds_call h .group none hd) ?_ fun _ _ => rfl
    rintro ⟨⟨program, inside⟩, fewer⟩ last hl hp ha
    refine Rounds.body (rounds_expect .groupEnd .again last ha hl ?_)
    rintro ⟨others, still⟩
    exact follows_ok _ _ rfl hl hp rfl
  · refine Follows.bind (rounds_openList h .vector _ hd) ?_ fun _ _ => rfl
    rintro ⟨⟨⟨count, program⟩, ahead⟩, fewer⟩ last hl hp ha
    exact Rounds.body (follows_ok _ _ rfl hl (congrArg (· ++ _) hp) ha)
  · cases operator.asPrefix? with
    | none =>
      simp only
      exact follows_error _ state rfl hd
    | some sign =>
      simp only
      refine Follows.bind (rounds_call h (.sign sign) (some sign) hd) ?_ fun _ _ => rfl
      intro left last hl hp ha
      refine Rounds.body (rounds_function sign.symbol 1 _ last ha hl (fun _ => left.map _) ?_)
      intro function
      rw [hp]
      rfl

theorem rounds_infixed (h : Reads registry inner depth) (loop : Loop) (pending : List Pending)
    (operator : Operator) (lexeme : Lexeme) (rest : Tokens) (state : State) (hd : state.depth = depth) :
    Rounds registry loop pending depth (settle loop pending (infixed operator lexeme rest state))
      (Emission.infixed registry inner operator lexeme state.program rest) id fun _ => .again := by
  unfold infixed Emission.infixed
  split
  · refine Follows.bind (rounds_call h .whenTrue (some .ternaryTrue) hd) ?_ fun _ _ => rfl
    rintro ⟨⟨program, inside⟩, fewer⟩ last hl hp ha
    refine Rounds.body (rounds_expect .ternaryFalse _ last ha hl ?_)
    rintro ⟨others, still⟩
    obtain rfl : last.program = program := hp
    refine Follows.bind (rounds_call h .whenFalse (some .ternaryFalse) hl) ?_ fun _ _ => rfl
    intro left final hf hp ha
    refine Rounds.body (rounds_function Operator.ternary.symbol 3 _ final ha hf
      (fun _ => (left.widen _).map _) ?_)
    intro function
    rw [hp]
    rfl
  · refine Follows.bind (rounds_openList h .index _ hd) ?_ fun _ _ => rfl
    rintro ⟨⟨⟨count, program⟩, ahead⟩, fewer⟩ last hl (hp : last.program = program) ha
    subst hp
    refine Rounds.body (follows_ok _ (last.index count) rfl ?_ ?_ ?_)
    · exact (last.index_depth count).trans hl
    · exact last.index_program count
    · exact (last.index_ahead count).trans ha
  · by_cases hbinary : operator.isBinary = true
    · simp only [if_pos hbinary]
      refine Follows.bind (rounds_call h (.right operator) (some operator) hd) ?_ fun _ _ => rfl
      intro left last hl hp ha
      refine Rounds.body (rounds_function operator.symbol 2 _ last ha hl (fun _ => left.map _) ?_)
      intro function
      rw [hp]
      rfl
    · simp only [if_neg hbinary]
      exact follows_error _ state rfl hd

private theorem prefixed_closing {operator : Operator} (hc : operator.isClosing = true)
    (lexeme : Lexeme) (program : Program) (ahead : Tokens) :
    Emission.prefixed registry inner operator lexeme program ahead =
      .error (Emission.unexpected .anExpression lexeme) := by
  cases operator <;> first | rfl | cases hc

theorem rounds_operand (h : Reads registry inner depth) (state : State) (hd : state.depth = depth)
    (hc : loop.count = 0) :
    Rounds registry loop pending depth ⟨.body loop .head, pending, state⟩
      (Emission.operand registry inner state.program state.ahead) id fun _ => .again := by
  refine Rounds.body ?_
  obtain ⟨ahead, emitted, level, taken⟩ := state
  simp only [advance, round, hc]
  cases ahead with
  | done => exact follows_error _ _ rfl hd
  | bad error => exact follows_error error _ rfl hd
  | next lexeme rest =>
    simp only [Emission.operand]
    cases lexeme.token with
    | number value => exact follows_ok _ _ rfl hd rfl rfl
    | identifier path => exact rounds_afterName h path _ hd
    | operator operator =>
      simp only
      split
      · rename_i hclosing
        rw [prefixed_closing hclosing]
        exact follows_error _ _ rfl hd
      · refine Follows.bind (rounds_prefixed h operator lexeme rest _ hd) ?_ fun _ _ => rfl
        exact fun left last hl hp ha => follows_ok left.later last rfl hl hp ha

def ended (pending : List Pending) (result : Except ParseError Program) (last : State) : Moment :=
  ⟨.ended (result.map fun _ => ()), pending, last⟩

theorem follows_operators (h : Reads registry inner depth) (loop : Loop) (pending : List Pending)
    (state : State) (hd : state.depth = depth) (hc : loop.count ≠ 0) :
    Follows registry (Moment.Inside pending.length) depth ⟨.body loop .head, pending, state⟩
      (Emission.operators registry inner loop.holder state.program state.ahead) id
      (ended pending) := by
  have hinside := (inRound_body loop .head pending state).inside
  refine .step hinside ?_
  simp only [step, advance, round, hc, if_false]
  cases hahead : state.ahead with
  | done =>
    rw [Emission.operators]
    exact follows_ok _ state rfl hd rfl hahead
  | bad error =>
    rw [Emission.operators]
    exact follows_error error state rfl hd
  | next lexeme rest =>
    rw [Emission.operators]
    simp only
    cases lexeme.token with
    | number value => exact follows_error _ state rfl hd
    | identifier path => exact follows_error _ state rfl hd
    | operator operator =>
      simp only
      by_cases hclosing : operator.isClosing = true
      · rw [if_pos hclosing, if_pos (by simp [hclosing])]
        exact follows_ok _ state rfl hd rfl hahead
      by_cases hcaptured : Emission.capturedBy loop.holder operator = true
      · rw [if_neg hclosing, if_pos hcaptured, if_neg (by simp [hclosing, hcaptured])]
        have hround := rounds_infixed h loop pending operator lexeme rest state hd
        refine Follows.bind hround.inside ?_ fun _ _ => rfl
        rintro ⟨⟨program, after⟩, fewer⟩ last hl (hp : last.program = program)
          (ha : last.ahead = after)
        -- The loop comes round again with the same holder and fewer tokens.
        have hmore := follows_operators h loop.again pending last hl (Nat.succ_ne_zero _)
        rw [hp, ha] at hmore
        refine Follows.bind hmore ?_ fun _ _ => rfl
        exact fun left final hf hp ha => follows_ok (left.widen _) final rfl hf hp ha
      · rw [if_neg hclosing, if_neg hcaptured, if_pos (by simp [hcaptured])]
        exact follows_ok _ state rfl hd rfl hahead
termination_by state.ahead.length
decreasing_by
  rw [ha, hahead]
  exact Nat.lt_succ_of_lt fewer

private theorem follows_loop {levels : Nat} (h : Reads registry (Emission.reader registry levels) depth)
    (holder : Option Operator) (pending : List Pending) (state : State) (hd : state.depth = depth) :
    Follows registry (Moment.Inside pending.length) depth ⟨.body ⟨holder, 0⟩ .head, pending, state⟩
      (Emission.reader registry (levels + 1) holder state.program state.ahead) id
      (ended pending) := by
  refine Follows.bind (rounds_operand h state hd rfl).inside ?_ fun _ _ => rfl
  rintro ⟨⟨program, after⟩, fewer⟩ last hl (hp : last.program = program) (ha : last.ahead = after)
  have hmore := follows_operators h (Loop.again ⟨holder, 0⟩) pending last hl (Nat.succ_ne_zero _)
  rw [hp, ha] at hmore
  refine Follows.bind hmore ?_ fun _ _ => rfl
  exact fun left final hf hp ha => follows_ok (left.widen _) final rfl hf hp ha

end

/-- Every expression follows the reader with the levels that are left at its depth. -/
theorem reads_reader (registry : Registry) (depth : Nat) :
    Reads registry (Emission.reader registry (maxNesting - depth)) depth := by
  generalize hn : maxNesting - depth = levels
  induction levels generalizing depth with
  | zero =>
    intro holder pending state hd
    refine .step (inside_expression holder pending state) ?_
    have hdeep : maxNesting ≤ state.depth := by omega
    simp only [step, if_pos hdeep]
    exact follows_error _ state rfl hd
  | succ levels ih =>
    intro holder pending state hd
    have hroom : ¬ maxNesting ≤ state.depth := by omega
    refine .step (inside_expression holder pending state) ?_
    simp only [step, if_neg hroom]
    obtain ⟨count, last, hl, hlast, hleft⟩ := follows_loop (ih (depth + 1) (by omega)) holder pending
      { state with depth := state.depth + 1 } (congrArg (· + 1) hd)
    have hreturn := hl.trans (.single rfl (inside_ended _ pending last))
    exact ⟨count + 1, { last with depth := last.depth - 1 }, hreturn, congrArg (· - 1) hlast, hleft⟩

/-- The steps from the start of a source end with the program that it is compiled to. Unless the source
is blank, that is the program that has been emitted. -/
theorem exists_finished (registry : Registry) (source : String) :
    ∃ count last, (step registry)^[count] (start source) =
        ⟨.finished (Expression.compile registry source), [], last⟩ ∧
      ∀ program, Expression.compile registry source = .ok program →
        Text.isAllBlank source.toList = true ∨ last.program = program := by
  unfold start Expression.compile
  split
  · rename_i hb
    exact ⟨0, _, rfl, fun _ _ => .inl hb⟩
  obtain ⟨count, last, hl, -, hleft⟩ :=
    reads_reader registry 0 none [] ⟨.ofText source.toList, [], 0, 0⟩ rfl
  refine ⟨count + 1, last, ?_⟩
  have hcount := hl.reaches
  rw [Function.iterate_succ_apply', hcount]
  simp only [Emission.program, Nat.sub_zero] at hleft ⊢
  cases hfound : Emission.reader registry maxNesting none [] (.ofText source.toList) with
  | error error => exact ⟨rfl, by rintro _ ⟨⟩⟩
  | ok left =>
    obtain ⟨⟨program, after⟩, fewer⟩ := left
    obtain ⟨hp, ha⟩ := hleft _ hfound
    simp only [Except.map, step, whole, bind, Except.bind]
    simp only at ha
    rw [ha]
    cases after with
    | done => exact ⟨hp ▸ rfl, by rintro _ ⟨⟩; exact .inr hp⟩
    | bad error => exact ⟨rfl, by rintro _ ⟨⟩⟩
    | next lexeme rest => exact ⟨rfl, by rintro _ ⟨⟩⟩

end VectorFormula.Parsing
