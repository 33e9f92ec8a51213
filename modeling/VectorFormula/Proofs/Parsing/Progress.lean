import VectorFormula.Proofs.Parsing.Agreement
import VectorFormula.Proofs.Tokenizing
/-!
Parsing makes progress: every expression that is read takes a lexeme, and so does every round of a
loop over operands or over items, unless it is the last (`compile_progresses`).
-/
namespace VectorFormula.Parsing

open Tokens (Leaving)

/-- Whether parsing comes from a moment to one with the same loops waiting and the same depth, where it
stops, or where it goes on with more lexemes taken. -/
def Progresses (registry : Registry) (passing : Moment → Prop) (first : Moment)
    (stops goes : Control → Prop) : Prop :=
  ∃ count last, Leads (step registry) passing count first last ∧ last.pending = first.pending ∧
    last.state.depth = first.state.depth ∧
    (stops last.control ∨ goes last.control ∧ first.state.taken < last.state.taken)

section

variable {α : Type} {size : Nat} {registry : Registry} {passing : Moment → Prop} {first last : Moment}
  {found : Except ParseError (Leaving size α)} {program : α → Program}
  {arrive : Except ParseError α → State → Moment} {stops goes : Control → Prop} {loop : Loop}
  {pending : List Pending} {state : State}

theorem taken_lt_of_leads {count : Nat} (hl : Leads (step registry) passing count first last)
    (h : last.state.ahead.length < first.state.ahead.length) :
    first.state.taken < last.state.taken := by
  have htotal := total_iterate registry first count
  rw [hl.reaches] at htotal
  simp only [State.total] at htotal
  omega

theorem Follows.progresses (h : Follows registry passing first.state.depth first found program arrive)
    (hs : size ≤ first.state.ahead.length)
    (harrive : ∀ result last, (arrive result last).pending = first.pending ∧
      (arrive result last).state = last)
    (herror : ∀ error last, stops (arrive (.error error) last).control)
    (hok : ∀ value last, goes (arrive (.ok value) last).control) :
    Progresses registry passing first stops goes := by
  obtain ⟨count, last, hl, hd, hleft⟩ := h
  obtain ⟨hpending, hstate⟩ := harrive (found.map (·.val.1)) last
  refine ⟨count, _, hl, hpending, (congrArg State.depth hstate).trans hd, ?_⟩
  cases found with
  | error error => exact .inl (herror error last)
  | ok left =>
    refine .inr ⟨hok left.val.1 last, taken_lt_of_leads hl ?_⟩
    rw [hstate, (hleft left rfl).2]
    exact Nat.lt_of_lt_of_le left.property hs

theorem expression_progresses (registry : Registry) (holder : Option Operator) (pending : List Pending)
    (state : State) :
    Progresses registry (Moment.Inside pending.length) ⟨.expression holder, pending, state⟩
      (fun control => ∃ error, control = .returned (.error error)) (· = .returned (.ok ())) :=
  Follows.progresses (reads_reader registry state.depth holder pending state rfl) (Nat.le_refl _)
    (fun _ _ => ⟨rfl, rfl⟩) (fun error _ => ⟨error, rfl⟩) fun _ _ => rfl

theorem round_operators (hc : loop.count ≠ 0) (registry : Registry) (pending : List Pending)
    (state : State) :
    (∃ result, step registry ⟨.body loop .head, pending, state⟩ = ⟨.ended result, pending, state⟩) ∨
      ∃ operator lexeme rest, state.ahead = .next lexeme rest ∧
        step registry ⟨.body loop .head, pending, state⟩ =
          settle loop pending (infixed operator lexeme rest state) := by
  simp only [step, advance, round, hc, if_false]
  cases state.ahead with
  | done => exact .inl ⟨_, rfl⟩
  | bad error => exact .inl ⟨_, rfl⟩
  | next lexeme rest =>
    simp only
    cases lexeme.token with
    | number value => exact .inl ⟨_, rfl⟩
    | identifier path => exact .inl ⟨_, rfl⟩
    | operator operator =>
      simp only
      split
      · exact .inl ⟨_, rfl⟩
      · split
        · exact .inr ⟨operator, lexeme, rest, rfl, rfl⟩
        · exact .inl ⟨_, rfl⟩

theorem settle_again (loop : Loop) (pending : List Pending) (result : Except ParseError Program)
    (last : State) :
    (settle loop pending (result.map fun _ => .again, last)).pending = pending ∧
      (settle loop pending (result.map fun _ => .again, last)).state = last := by
  cases result <;> exact ⟨rfl, rfl⟩

theorem round_progresses (registry : Registry) (loop : Loop) (pending : List Pending) (state : State) :
    Progresses registry (Moment.InRound loop pending.length) ⟨.body loop .head, pending, state⟩
      (fun control => ∃ result, control = .ended result) (· = .body loop.again .head) := by
  have hinner := reads_reader registry state.depth
  by_cases hc : loop.count = 0
  · exact Follows.progresses (rounds_operand hinner state rfl hc) (Nat.le_refl _)
      (settle_again loop pending) (fun error _ => ⟨_, rfl⟩) fun _ _ => rfl
  obtain ⟨result, hs⟩ | ⟨operator, lexeme, rest, ha, hs⟩ := round_operators hc registry pending state
  · have hl := Leads.single hs (inRound_body loop .head pending state)
    exact ⟨1, _, hl, rfl, rfl, .inl ⟨result, rfl⟩⟩
  · have hround := rounds_infixed hinner loop pending operator lexeme rest state rfl
    refine Follows.progresses (.step (inRound_body loop .head pending state) (hs ▸ hround)) ?_
      (settle_again loop pending) (fun error _ => ⟨_, rfl⟩) fun _ _ => rfl
    rw [ha]
    exact Nat.le_succ _

theorem afterItem_cases (listing : Listing) (count : Nat) (state : State) :
    (∃ error, afterItem listing count state = (.error error, state)) ∨
      ∃ point lexeme rest, (point = .item listing (count + 1) ∨ point = .listed listing (count + 1)) ∧
        state.ahead = .next lexeme rest ∧
        afterItem listing count state = (.ok (.goto point), state.pass rest) := by
  unfold afterItem
  cases state.ahead with
  | done => exact .inl ⟨_, rfl⟩
  | bad error => exact .inl ⟨_, rfl⟩
  | next lexeme rest =>
    simp only
    split
    · exact .inr ⟨_, lexeme, rest, .inr rfl, rfl, rfl⟩
    · split
      · exact .inr ⟨_, lexeme, rest, .inl rfl, rfl, rfl⟩
      · exact .inl ⟨_, rfl⟩

theorem item_progresses (registry : Registry) (loop : Loop) (listing : Listing) (number : Nat)
    (pending : List Pending) (state : State) :
    Progresses registry (Moment.InRound loop pending.length)
      ⟨.body loop (.item listing number), pending, state⟩
      (fun control => ∃ error, control = .ended (.error error))
      fun control => control = .body loop (.item listing (number + 1)) ∨
        control = .body loop (.listed listing (number + 1)) := by
  obtain ⟨inner, hinner⟩ : ∃ inner, Reads registry inner state.depth :=
    ⟨_, reads_reader registry state.depth⟩
  obtain ⟨count, last, hl, hd, hleft⟩ : Rounds registry loop pending state.depth
      ⟨.body loop (.item listing number), pending, state⟩ (inner none state.program state.ahead) id
      fun _ => .goto (.resumed (.item listing number)) := .body (rounds_call hinner _ none rfl)
  -- The item takes a lexeme, unless it ends the loop; the delimiter behind it says where that goes on.
  cases hfound : inner none state.program state.ahead with
  | error error =>
    rw [hfound] at hl
    exact ⟨count, _, hl, rfl, hd, .inl ⟨error, rfl⟩⟩
  | ok left =>
    rw [hfound] at hl
    have hfewer : last.ahead.length < state.ahead.length := by
      rw [(hleft left hfound).2]
      exact left.property
    have hround := inRound_body loop (.resumed (.item listing number)) pending last
    obtain ⟨error, hs⟩ | ⟨point, lexeme, rest, hpoint, ha, hs⟩ := afterItem_cases listing number last
    · have hlast := hl.trans (.single (congrArg (settle loop pending) hs) hround)
      exact ⟨count + 1, _, hlast, rfl, hd, .inl ⟨error, rfl⟩⟩
    · have hlast := hl.trans (.single (congrArg (settle loop pending) hs) hround)
      refine ⟨count + 1, _, hlast, rfl, hd, .inr ⟨?_, taken_lt_of_leads hlast ?_⟩⟩
      · exact hpoint.imp (congrArg _) (congrArg _)
      · rw [ha] at hfewer
        exact Nat.lt_of_succ_lt hfewer

end

/-- Parsing a source comes to its end with the program that the source is compiled to, or with the
error. At every moment the lexemes taken and those ahead are the tokens of the source, the program has
an instruction for a lexeme taken at most, and no more expressions are being read than the limit
allows. Every expression that is read comes back with the depth and the loops that it was begun with,
with an error or with a lexeme taken. Every round of a loop over operands, or over the items of a list,
takes a lexeme, unless the loop ends with it. A blank source is not read; its program is none that is
emitted. -/
theorem compile_progresses (registry : Registry) (source : String) :
    (∃ count last, (step registry)^[count] (start source) =
        ⟨.finished (Expression.compile registry source), [], last⟩ ∧
      ∀ program, Expression.compile registry source = .ok program →
        Text.isAllBlank source.toList = true ∨ last.program = program) ∧
    (∀ count,
      let state := ((step registry)^[count] (start source)).state
      (∀ recovery, state.taken + state.ahead.length =
        (Token.Cursor.start recovery source.toList).takeAll.1.length) ∧
        state.program.length ≤ state.taken ∧ state.depth ≤ 128) ∧
    (∀ holder pending state,
      Progresses registry (Moment.Inside pending.length) ⟨.expression holder, pending, state⟩
        (fun control => ∃ error, control = .returned (.error error)) (· = .returned (.ok ()))) ∧
    (∀ loop pending state,
      Progresses registry (Moment.InRound loop pending.length) ⟨.body loop .head, pending, state⟩
        (fun control => ∃ result, control = .ended result) (· = .body loop.again .head)) ∧
    ∀ loop listing number pending state,
      Progresses registry (Moment.InRound loop pending.length)
        ⟨.body loop (.item listing number), pending, state⟩
        (fun control => ∃ error, control = .ended (.error error))
        fun control => control = .body loop (.item listing (number + 1)) ∨
          control = .body loop (.listed listing (number + 1)) := by
  refine ⟨exists_finished registry source, fun count => ?_, expression_progresses registry,
    round_progresses registry, item_progresses registry⟩
  obtain ⟨-, hnesting, hemitted⟩ := (consistent_start source).iterate registry count
  refine ⟨fun recovery => ?_, ?_, hnesting⟩
  · have htotal := (total_iterate registry (start source) count).trans (total_start source)
    exact htotal.trans (Token.length_ofText recovery source.toList source.toList)
  · omega

end VectorFormula.Parsing
