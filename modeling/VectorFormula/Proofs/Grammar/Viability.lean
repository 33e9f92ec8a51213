import Mathlib.Data.List.Basic
import VectorFormula.Grammar
import VectorFormula.Proofs.Grammar.Regrouping
/-!
What can go on to a sentence: tokens can as long as the reading of them does not get stuck
(`viable_iff`).
-/
namespace VectorFormula.Grammar

def IsSentence (tokens : List Token) : Prop :=
  ∃ calls, Sentence tokens calls

def Viable (tokens : List Token) : Prop :=
  ∃ more, IsSentence (tokens ++ more)

inductive Frame where
  | group | call | vector | choice
  deriving DecidableEq

namespace Frame

def closing : Frame → Operator
  | group | call => .groupEnd
  | vector => .vectorEnd
  | choice => .ternaryFalse

def isList : Frame → Bool
  | call | vector => true
  | group | choice => false

end Frame

/-- What may come next: an operand, or the end of the list that was just opened, or what follows an
operand. After a name a call may follow. -/
inductive Turn where
  | operand | opened | named | ended
  deriving DecidableEq

/-- How far the reading of tokens has come: whose turn it is, and what is open, innermost first. -/
structure Progress where
  turn : Turn
  frames : List Frame
  deriving DecidableEq

namespace Progress

def initial : Progress := ⟨.operand, []⟩

def begin (frames : List Frame) : Token → Option Progress
  | .number _ => some ⟨.ended, frames⟩
  | .identifier _ => some ⟨.named, frames⟩
  | .operator .groupStart => some ⟨.operand, .group :: frames⟩
  | .operator .vectorStart => some ⟨.opened, .vector :: frames⟩
  | .operator operator =>
    if operator ∈ [.plus, .minus, .negate, .complement] then some ⟨.operand, frames⟩ else none

def close (operator : Operator) : List Frame → Option Progress
  | [] => none
  | frame :: frames =>
    if operator = frame.closing then
      some ⟨if frame = .choice then .operand else .ended, frames⟩
    else if operator = .comma ∧ frame.isList = true then some ⟨.operand, frame :: frames⟩
    else none

def follow (frames : List Frame) : Token → Option Progress
  | .operator .ternaryTrue => some ⟨.operand, .choice :: frames⟩
  | .operator .vectorStart => some ⟨.opened, .vector :: frames⟩
  | .operator operator =>
    if operator.isBinary then some ⟨.operand, frames⟩ else close operator frames
  | _ => none

def step : Progress → Token → Option Progress
  | ⟨.operand, frames⟩, token => begin frames token
  | ⟨.opened, frame :: frames⟩, .operator operator =>
    if operator = frame.closing then some ⟨.ended, frames⟩
    else begin (frame :: frames) (.operator operator)
  | ⟨.opened, frames⟩, token => begin frames token
  | ⟨.named, frames⟩, .operator .groupStart => some ⟨.opened, .call :: frames⟩
  | ⟨.named, frames⟩, token | ⟨.ended, frames⟩, token => follow frames token

def run (progress : Progress) (tokens : List Token) : Option Progress :=
  tokens.foldlM step progress

def isComplete (progress : Progress) : Bool :=
  progress.frames.isEmpty && (progress.turn == .named || progress.turn == .ended)

variable {progress next : Progress} {frames : List Frame} {frame : Frame} {turn : Turn}
  {token : Token} {tokens : List Token}

@[simp] theorem run_nil : run progress [] = some progress := rfl

@[simp] theorem run_cons : run progress (token :: tokens) = (step progress token).bind (run · tokens) :=
  rfl

theorem run_append (first second : List Token) :
    run progress (first ++ second) = (run progress first).bind (run · second) :=
  List.foldlM_append

theorem close_cons (operator : Operator) (frame : Frame) (frames : List Frame) :
    close operator (frame :: frames) =
      if operator = frame.closing then
        some ⟨if frame = .choice then .operand else .ended, frames⟩
      else if operator = .comma ∧ frame.isList = true then some ⟨.operand, frame :: frames⟩
      else none :=
  rfl

theorem begin_closing (frame : Frame) : begin frames (.operator frame.closing) = none := by
  cases frame <;> rfl

theorem close_of_not_isClosing {operator : Operator} (h : operator.isClosing = false)
    (frames : List Frame) : close operator frames = none := by
  cases frames with
  | nil => rfl
  | cons frame frames =>
    have hend : operator ≠ frame.closing := by
      rintro rfl
      cases frame <;> cases h
    have hcomma : operator ≠ .comma := by
      rintro rfl
      cases h
    rw [close_cons, if_neg hend, if_neg (not_and_of_not_left _ hcomma)]

theorem follow_of_isClosing {operator : Operator} (h : operator.isClosing = true)
    (frames : List Frame) : follow frames (.operator operator) = close operator frames := by
  cases operator <;> first | rfl | cases h

theorem follow_comma (h : frame.isList = true) (frames : List Frame) :
    follow (frame :: frames) (.operator .comma) = some ⟨.operand, frame :: frames⟩ := by
  cases frame <;> first | rfl | exact absurd h Bool.false_ne_true

theorem follow_closing (h : frame.isList = true) (frames : List Frame) :
    follow (frame :: frames) (.operator frame.closing) = some ⟨.ended, frames⟩ := by
  cases frame <;> first | rfl | exact absurd h Bool.false_ne_true

theorem follow_binary {operator : Operator} (h : operator.isBinary = true) (frames : List Frame) :
    follow frames (.operator operator) = some ⟨.operand, frames⟩ := by
  cases operator <;> first | rfl | cases h

theorem follow_unknown {operator : Operator} (ht : operator ≠ .ternaryTrue)
    (hv : operator ≠ .vectorStart) (hb : operator.isBinary = false)
    (hc : operator.isClosing = false) (frames : List Frame) :
    follow frames (.operator operator) = none := by
  have hclose : follow frames (.operator operator) = close operator frames := by
    cases operator <;> first | rfl | contradiction
  exact hclose.trans (close_of_not_isClosing hc frames)

theorem follow_other {operator : Operator} (hc : operator.isClosing = true)
    (hend : operator ≠ frame.closing) (hcomma : operator = .comma → frame.isList = false)
    (frames : List Frame) : follow (frame :: frames) (.operator operator) = none := by
  rw [follow_of_isClosing hc, close_cons, if_neg hend, if_neg]
  rintro ⟨ho, hl⟩
  exact absurd ((hcomma ho).symm.trans hl) Bool.false_ne_true

theorem step_opened (h : token ≠ .operator frame.closing) :
    step ⟨.opened, frame :: frames⟩ token = begin (frame :: frames) token := by
  cases token with
  | number value => rfl
  | identifier path => rfl
  | operator operator => exact if_neg fun ho => h (congrArg Token.operator ho)

theorem step_of_begin (h : begin frames token = some next) (ht : turn = .operand ∨ turn = .opened) :
    step ⟨turn, frames⟩ token = some next := by
  rcases ht with rfl | rfl
  · exact h
  · cases frames with
    | nil => exact h
    | cons frame frames =>
      have hne : token ≠ .operator frame.closing := by
        rintro rfl
        rw [begin_closing] at h
        cases h
      exact (step_opened hne).trans h

theorem step_named (h : token ≠ .operator .groupStart) :
    step ⟨.named, frames⟩ token = follow frames token := by
  unfold step
  split <;> simp_all

theorem step_of_follow (h : follow frames token = some next) (ht : turn = .named ∨ turn = .ended) :
    step ⟨turn, frames⟩ token = some next := by
  rcases ht with rfl | rfl
  · rw [step_named, h]
    rintro rfl
    exact nomatch (close_of_not_isClosing rfl frames).symm.trans h
  · exact h

def IsOperand (tokens : List Token) : Prop :=
  ∀ turn frames, turn = .operand ∨ turn = .opened →
    ∃ last, (last = .named ∨ last = .ended) ∧ run ⟨turn, frames⟩ tokens = some ⟨last, frames⟩

theorem run_separated {parts : List (List Token)} (h : ∀ part ∈ parts, IsOperand part)
    (hne : parts ≠ []) (hf : frame.isList = true) (ht : turn = .operand ∨ turn = .opened) :
    ∃ last, (last = .named ∨ last = .ended) ∧
      run ⟨turn, frame :: frames⟩ (separated parts) = some ⟨last, frame :: frames⟩ := by
  induction parts generalizing turn with
  | nil => exact absurd rfl hne
  | cons part rest ih =>
    obtain ⟨hp, hr⟩ := List.forall_mem_cons.mp h
    obtain ⟨middle, hm, hrun⟩ := hp turn (frame :: frames) ht
    cases rest with
    | nil => exact ⟨middle, hm, by rw [separated_singleton, hrun]⟩
    | cons other rest =>
      obtain ⟨last, hl, hs⟩ := ih hr (List.cons_ne_nil _ _) (.inl rfl)
      refine ⟨last, hl, ?_⟩
      rw [separated_cons_cons, run_append, hrun, Option.bind_some, run_cons,
        step_of_follow (follow_comma hf frames) hm, Option.bind_some, hs]

theorem run_list (frame : Frame) (hf : frame.isList = true) {parts : List (List Token)}
    (h : ∀ part ∈ parts, IsOperand part) :
    run ⟨.opened, frame :: frames⟩ (separated parts ++ [.operator frame.closing]) =
      some ⟨.ended, frames⟩ := by
  by_cases hne : parts = []
  · subst hne
    exact congrArg (Option.bind · _) (if_pos rfl)
  · obtain ⟨last, hl, hr⟩ := run_separated h hne hf (.inr rfl)
    rw [run_append, hr, Option.bind_some, run_cons, step_of_follow (follow_closing hf frames) hl]
    rfl

end Progress

open Progress

theorem Sentence.isOperand {tokens : List Token} {calls : List Call} (h : Sentence tokens calls) :
    IsOperand tokens := by
  induction h with
  | number value =>
    intro turn frames ht
    exact ⟨.ended, .inr rfl, by rw [run_cons, step_of_begin rfl ht]; rfl⟩
  | named path =>
    intro turn frames ht
    exact ⟨.named, .inl rfl, by rw [run_cons, step_of_begin rfl ht]; rfl⟩
  | apply _ ih =>
    intro turn frames ht
    refine ⟨.ended, .inr rfl, ?_⟩
    rw [run_cons, step_of_begin rfl ht]
    exact run_list .call rfl (List.forall_mem_map.mpr ih)
  | group _ ih =>
    intro turn frames ht
    obtain ⟨last, hl, hr⟩ := ih .operand (.group :: frames) (.inl rfl)
    refine ⟨.ended, .inr rfl, ?_⟩
    rw [run_cons, step_of_begin rfl ht, Option.bind_some, run_append, hr, Option.bind_some, run_cons,
      step_of_follow rfl hl]
    rfl
  | vector _ ih =>
    intro turn frames ht
    refine ⟨.ended, .inr rfl, ?_⟩
    rw [run_cons, step_of_begin rfl ht]
    exact run_list .vector rfl (List.forall_mem_map.mpr ih)
  | @signed sign _ _ hs _ ih =>
    intro turn frames ht
    have hbegin : begin frames (.operator sign) = some ⟨.operand, frames⟩ := by
      simp only [List.mem_cons, List.not_mem_nil, or_false] at hs
      rcases hs with rfl | rfl | rfl | rfl <;> rfl
    obtain ⟨last, hl, hr⟩ := ih .operand frames (.inl rfl)
    exact ⟨last, hl, by rw [run_cons, step_of_begin hbegin ht, Option.bind_some, hr]⟩
  | @binary operator _ _ _ _ hb _ _ ihl ihr =>
    intro turn frames ht
    obtain ⟨middle, hm, hleft⟩ := ihl turn frames ht
    obtain ⟨last, hl, hright⟩ := ihr .operand frames (.inl rfl)
    refine ⟨last, hl, ?_⟩
    rw [run_append, hleft, Option.bind_some, run_cons, step_of_follow (follow_binary hb frames) hm, Option.bind_some,
      hright]
  | conditional _ _ _ ihc ihy ihn =>
    intro turn frames ht
    obtain ⟨first, hf, hcondition⟩ := ihc turn frames ht
    obtain ⟨second, hs, hyes⟩ := ihy .operand (.choice :: frames) (.inl rfl)
    obtain ⟨last, hl, hno⟩ := ihn .operand frames (.inl rfl)
    refine ⟨last, hl, ?_⟩
    rw [run_append, hcondition, Option.bind_some, run_cons, step_of_follow rfl hf, Option.bind_some,
      run_append, hyes, Option.bind_some, run_cons, step_of_follow rfl hs]
    exact hno
  | index _ _ iht ihi =>
    intro turn frames ht
    obtain ⟨middle, hm, htarget⟩ := iht turn frames ht
    refine ⟨.ended, .inr rfl, ?_⟩
    rw [run_append, htarget, Option.bind_some, run_cons, step_of_follow rfl hm]
    exact run_list .vector rfl (List.forall_mem_map.mpr ihi)

section

variable {parts : List (List Token)}

theorem separated_concat (h : parts ≠ []) (part : List Token) :
    separated (parts ++ [part]) = separated parts ++ .operator .comma :: part := by
  induction parts with
  | nil => exact absurd rfl h
  | cons first rest ih =>
    cases rest with
    | nil => simp
    | cons other rest => simpa using ih (List.cons_ne_nil _ _)

theorem separated_extend (parts : List (List Token)) (last more : List Token) :
    separated (parts ++ [last ++ more]) = separated (parts ++ [last]) ++ more := by
  by_cases h : parts = []
  · subst h
    simp
  · simp [separated_concat h]

private theorem exists_calls (h : ∀ part ∈ parts, IsSentence part) :
    ∃ listed : List (List Token × List Call), listed.map (·.1) = parts ∧
      ∀ part ∈ listed, Sentence part.1 part.2 := by
  have hone : ∀ part ∈ parts, ∃ pair : List Token × List Call, pair.1 = id part ∧
      Sentence pair.1 pair.2 := by
    intro part hm
    obtain ⟨calls, hs⟩ := h part hm
    exact ⟨(part, calls), rfl, hs⟩
  simpa using Term.exists_map_eq hone

theorem IsSentence.apply (path : Path) (h : ∀ part ∈ parts, IsSentence part) :
    IsSentence (.identifier path :: .operator .groupStart ::
      (separated parts ++ [.operator .groupEnd])) := by
  obtain ⟨listed, rfl, hs⟩ := exists_calls h
  exact ⟨_, .apply hs⟩

theorem IsSentence.vector (h : ∀ part ∈ parts, IsSentence part) :
    IsSentence (.operator .vectorStart :: (separated parts ++ [.operator .vectorEnd])) := by
  obtain ⟨listed, rfl, hs⟩ := exists_calls h
  exact ⟨_, .vector hs⟩

theorem IsSentence.index {target : List Token} (ht : IsSentence target)
    (h : ∀ part ∈ parts, IsSentence part) :
    IsSentence (target ++
      .operator .vectorStart :: (separated parts ++ [.operator .vectorEnd])) := by
  obtain ⟨calls, ht⟩ := ht
  obtain ⟨listed, rfl, hs⟩ := exists_calls h
  exact ⟨_, .index ht hs⟩

end

/-- Whether parts may stand in a frame: one sentence, or in a list any number of them. -/
structure Frame.Fits (frame : Frame) (parts : List (List Token)) : Prop where
  sentences : ∀ part ∈ parts, IsSentence part
  single : frame.isList = false → parts.length = 1

/-- Whether any sentence behind what is read makes it one that is done. -/
def Expects (done : List Token → Prop) (read : List Token) : Prop :=
  ∀ operand, IsSentence operand → done (read ++ operand)

/-- Whether what is read ends where a frame opens: once that is closed, the frames around it have an
operand, or expect the last one of a choice. -/
def Frame.Opens (frame : Frame) (done : List Token → Prop) (read : List Token) : Prop :=
  ∀ parts, frame.Fits parts → (if frame = .choice then Expects done else done)
    (read ++ (separated parts ++ [.operator frame.closing]))

/-- Whether what is read ends with an operand inside frames. -/
def Ends : List Frame → List Token → Prop
  | [], read => IsSentence read
  | frame :: frames, read => ∃ start parts, parts ≠ [] ∧ frame.Fits parts ∧
      read = start ++ separated parts ∧ frame.Opens (Ends frames) start

/-- What it says about the tokens read that the reading has come so far. -/
def Progress.Means : Progress → List Token → Prop
  | ⟨.operand, frames⟩, read => Expects (Ends frames) read
  | ⟨.opened, []⟩, _ => False
  | ⟨.opened, frame :: frames⟩, read => frame.isList = true ∧ frame.Opens (Ends frames) read
  | ⟨.named, frames⟩, read =>
    ∃ start path, read = start ++ [.identifier path] ∧ Expects (Ends frames) start
  | ⟨.ended, frames⟩, read => Ends frames read

section

variable {frame : Frame} {frames : List Frame} {read more : List Token} {token : Token}
  {progress next : Progress}

theorem Frame.Opens.expects (h : frame.Opens (Ends frames) read) :
    Expects (Ends (frame :: frames)) read := by
  intro operand ho
  exact ⟨read, [operand], List.cons_ne_nil _ _, ⟨List.forall_mem_singleton.mpr ho, fun _ => rfl⟩,
    by rw [separated_singleton], h⟩

theorem Ends.extend (h : Ends frames read)
    (hm : ∀ operand, IsSentence operand → IsSentence (operand ++ more)) :
    Ends frames (read ++ more) := by
  cases frames with
  | nil => exact hm read h
  | cons frame frames =>
    obtain ⟨start, parts, hne, hfits, rfl, hopens⟩ := h
    obtain ⟨others, last, rfl⟩ := (List.eq_nil_or_concat' parts).resolve_left hne
    obtain ⟨hothers, hlast⟩ := List.forall_mem_append.mp hfits.sentences
    have hextended : IsSentence (last ++ more) := hm last (List.forall_mem_singleton.mp hlast)
    refine ⟨start, others ++ [last ++ more], by simp, ⟨?_, ?_⟩, ?_, hopens⟩
    · exact List.forall_mem_append.mpr ⟨hothers, List.forall_mem_singleton.mpr hextended⟩
    · simpa using hfits.single
    · rw [separated_extend, List.append_assoc]

theorem Expects.begin (h : Expects (Ends frames) read) (hb : Progress.begin frames token = some next) :
    next.Means (read ++ [token]) := by
  unfold Progress.begin at hb
  split at hb
  · cases hb
    exact h _ ⟨_, .number _⟩
  · cases hb
    exact ⟨read, _, rfl, h⟩
  · cases hb
    refine Frame.Opens.expects ?_
    intro parts hp
    obtain ⟨part, rfl⟩ := List.length_eq_one_iff.mp (hp.single rfl)
    obtain ⟨calls, hs⟩ := hp.sentences _ (List.mem_singleton_self _)
    simpa [Frame.closing] using h _ ⟨_, .group hs⟩
  · cases hb
    refine ⟨rfl, ?_⟩
    intro parts hp
    simpa [Frame.closing] using h _ (.vector hp.sentences)
  · split at hb
    · rename_i hsign
      cases hb
      rintro operand ⟨calls, ho⟩
      simpa using h _ ⟨_, .signed hsign ho⟩
    · cases hb

theorem Ends.close {operator : Operator} (h : Ends frames read)
    (hc : Progress.close operator frames = some next) :
    next.Means (read ++ [.operator operator]) := by
  cases frames with
  | nil => cases hc
  | cons frame frames =>
    obtain ⟨start, parts, hne, hfits, rfl, hopens⟩ := h
    rw [close_cons] at hc
    split at hc
    · rename_i ho
      cases hc
      subst ho
      have hclosed := hopens parts hfits
      rw [← List.append_assoc] at hclosed
      cases frame <;> exact hclosed
    · split at hc
      · rename_i ho
        obtain ⟨rfl, hl⟩ := ho
        cases hc
        -- The comma makes room for one more part.
        intro operand hs
        refine ⟨start, parts ++ [operand], by simp, ⟨?_, ?_⟩, ?_, hopens⟩
        · exact List.forall_mem_append.mpr ⟨hfits.sentences, List.forall_mem_singleton.mpr hs⟩
        · exact fun hn => absurd (hn.symm.trans hl) Bool.false_ne_true
        · simp [separated_concat hne]
      · cases hc

theorem Ends.follow (h : Ends frames read) (hf : Progress.follow frames token = some next) :
    next.Means (read ++ [token]) := by
  unfold Progress.follow at hf
  split at hf
  · cases hf
    refine Frame.Opens.expects ?_
    intro parts hp
    obtain ⟨part, rfl⟩ := List.length_eq_one_iff.mp (hp.single rfl)
    obtain ⟨second, hyes⟩ := hp.sentences _ (List.mem_singleton_self _)
    rintro no ⟨third, hno⟩
    have hends := h.extend fun condition hc => by
      obtain ⟨first, hc⟩ := hc
      exact ⟨_, .conditional hc hyes hno⟩
    simpa [Frame.closing] using hends
  · cases hf
    refine ⟨rfl, ?_⟩
    intro parts hp
    have hends := h.extend fun target ht => ht.index hp.sentences
    simpa [Frame.closing] using hends
  · split at hf
    · rename_i hb
      cases hf
      rintro right ⟨second, hr⟩
      have hends := h.extend fun left hl => by
        obtain ⟨first, hl⟩ := hl
        exact ⟨_, .binary hb hl hr⟩
      simpa using hends
    · exact h.close hf
  · cases hf

theorem Progress.Means.step (h : progress.Means read) (hs : progress.step token = some next) :
    next.Means (read ++ [token]) := by
  unfold Progress.step at hs
  split at hs
  · exact Expects.begin h hs
  · obtain ⟨hl, hopens⟩ := h
    split at hs
    · rename_i frame frames operator ho
      cases hs
      subst ho
      have hfits : frame.Fits [] := ⟨nofun, fun hn => absurd (hn.symm.trans hl) Bool.false_ne_true⟩
      have hclosed := hopens [] hfits
      cases frame <;> first | exact hclosed | cases hl
    · exact hopens.expects.begin hs
  · rename_i frames _
    cases frames with
    | nil => exact h.elim
    | cons frame frames => exact h.2.expects.begin hs
  · cases hs
    obtain ⟨start, path, rfl, hexpects⟩ := h
    refine ⟨rfl, ?_⟩
    intro parts hp
    simpa [Frame.closing] using hexpects _ (.apply path hp.sentences)
  · obtain ⟨start, path, rfl, hexpects⟩ := h
    exact Ends.follow (hexpects _ ⟨_, .named path⟩) hs
  · exact Ends.follow h hs

theorem Progress.Means.run {tokens : List Token} (h : progress.Means read)
    (hr : progress.run tokens = some next) : next.Means (read ++ tokens) := by
  induction tokens generalizing progress read with
  | nil =>
    cases hr
    rwa [List.append_nil]
  | cons token tokens ih =>
    obtain ⟨middle, hs, hr⟩ := Option.bind_eq_some_iff.mp hr
    rw [List.append_cons]
    exact ih (h.step hs) hr

theorem means_initial : Progress.initial.Means [] :=
  fun _ ho => ho

theorem Ends.viable (h : Ends frames read) : Viable read := by
  induction frames generalizing read with
  | nil => exact ⟨[], by rwa [List.append_nil]⟩
  | cons frame frames ih =>
    obtain ⟨start, parts, -, hfits, rfl, hopens⟩ := h
    have hclosed := hopens parts hfits
    rw [← List.append_assoc] at hclosed
    by_cases hf : frame = .choice
    · rw [if_pos hf] at hclosed
      obtain ⟨more, hm⟩ := ih (hclosed [.number 0] ⟨_, .number 0⟩)
      exact ⟨_, by simpa only [List.append_assoc] using hm⟩
    · rw [if_neg hf] at hclosed
      obtain ⟨more, hm⟩ := ih hclosed
      exact ⟨_, by simpa only [List.append_assoc] using hm⟩

theorem Expects.viable (h : Expects (Ends frames) read) : Viable read := by
  obtain ⟨more, hm⟩ := (h [.number 0] ⟨_, .number 0⟩).viable
  exact ⟨_, by simpa only [List.append_assoc] using hm⟩

theorem Progress.Means.viable (h : progress.Means read) : Viable read := by
  match progress, h with
  | ⟨.operand, frames⟩, h => exact Expects.viable h
  | ⟨.opened, frame :: frames⟩, h => exact h.2.expects.viable
  | ⟨.named, frames⟩, ⟨start, path, hr, hexpects⟩ =>
    subst hr
    exact Ends.viable (hexpects _ ⟨_, .named path⟩)
  | ⟨.ended, frames⟩, h => exact Ends.viable h

end

/-- Tokens can go on to a sentence as long as the reading of them does not get stuck. -/
theorem viable_iff {tokens : List Token} : Viable tokens ↔ (initial.run tokens).isSome = true := by
  constructor
  · rintro ⟨more, calls, hs⟩
    obtain ⟨last, -, hr⟩ := hs.isOperand .operand [] (.inl rfl)
    rw [run_append] at hr
    obtain ⟨middle, hm, -⟩ := Option.bind_eq_some_iff.mp hr
    exact Option.isSome_iff_exists.mpr ⟨middle, hm⟩
  · intro h
    obtain ⟨last, hr⟩ := Option.isSome_iff_exists.mp h
    exact (means_initial.run hr).viable

theorem isSentence_iff {tokens : List Token} :
    IsSentence tokens ↔ ∃ progress, initial.run tokens = some progress ∧
      progress.isComplete = true := by
  constructor
  · rintro ⟨calls, hs⟩
    obtain ⟨last, hl, hr⟩ := hs.isOperand .operand [] (.inl rfl)
    refine ⟨⟨last, []⟩, hr, ?_⟩
    rcases hl with rfl | rfl <;> rfl
  · rintro ⟨⟨turn, frames⟩, hr, hc⟩
    have hmeans := means_initial.run hr
    obtain ⟨rfl, ht⟩ : frames = [] ∧ (turn = .named ∨ turn = .ended) := by
      simpa [isComplete] using hc
    rcases ht with rfl | rfl
    · obtain ⟨start, path, ht, hexpects⟩ := hmeans
      rw [← List.nil_append tokens, ht]
      exact hexpects _ ⟨_, .named path⟩
    · exact hmeans

instance (tokens : List Token) : Decidable (Viable tokens) :=
  decidable_of_iff _ viable_iff.symm

/-- A choice may stand in a list, but it has no comma in its middle. -/
example : Viable [.operator .vectorStart, .identifier ["a"], .operator .ternaryTrue,
    .identifier ["b"]] ∧
    ¬ Viable [.operator .vectorStart, .identifier ["a"], .operator .ternaryTrue,
      .identifier ["b"], .operator .comma] := by
  decide

end VectorFormula.Grammar
