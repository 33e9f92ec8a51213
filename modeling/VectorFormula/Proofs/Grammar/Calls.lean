import VectorFormula.Grammar
/-!
All derivations of a sentence have the same calls: they can be read off its delimiters from left to
right, without a derivation.
-/
namespace VectorFormula.Grammar

/-- What stands right before a token, as far as calls depend on it. -/
private inductive Last where
  | name (path : Path)
  | opening
  | other

private def Last.name? : Last → Option Path
  | name path => some path
  | _ => none

/-- What was read last, and the lists that are open: the name of each that is a call, and the number
of commas in it so far. -/
private structure Pending where
  last : Last
  lists : List (Option Path × Nat)

private def Pending.ended : Pending → List Call
  | ⟨.opening, (some path, _) :: _⟩ => [(path, 0)]
  | ⟨_, (some path, commas) :: _⟩ => [(path, commas + 1)]
  | _ => []

private def continued : List (Option Path × Nat) → List (Option Path × Nat)
  | [] => []
  | (name, commas) :: lists => (name, commas + 1) :: lists

private def step (pending : Pending) : Token → List Call × Pending
  | .number _ => ([], ⟨.other, pending.lists⟩)
  | .identifier path => ([], ⟨.name path, pending.lists⟩)
  | .operator .groupStart => ([], ⟨.opening, (pending.last.name?, 0) :: pending.lists⟩)
  | .operator .vectorStart => ([], ⟨.opening, (none, 0) :: pending.lists⟩)
  | .operator .comma => ([], ⟨.other, continued pending.lists⟩)
  | .operator .groupEnd | .operator .vectorEnd => (pending.ended, ⟨.other, pending.lists.tail⟩)
  | .operator _ => ([], ⟨.other, pending.lists⟩)

private def scan (pending : Pending) : List Token → List Call × Pending
  | [] => ([], pending)
  | token :: rest =>
    let (calls, next) := step pending token
    let (others, last) := scan next rest
    (calls ++ others, last)

private theorem scan_cons (pending : Pending) (token : Token) (rest : List Token) :
    scan pending (token :: rest) =
      ((step pending token).1 ++ (scan (step pending token).2 rest).1,
        (scan (step pending token).2 rest).2) := rfl

private theorem scan_append (pending : Pending) (xs ys : List Token) :
    scan pending (xs ++ ys) =
      ((scan pending xs).1 ++ (scan (scan pending xs).2 ys).1, (scan (scan pending xs).2 ys).2) := by
  induction xs generalizing pending with
  | nil => rfl
  | cons token rest ih => simp [scan_cons, ih]

private def Scans (tokens : List Token) (calls : List Call) : Prop :=
  ∀ last lists, last.name? = none →
    ∃ next, next ≠ .opening ∧ scan ⟨last, lists⟩ tokens = (calls, ⟨next, lists⟩)

private theorem scan_separated {parts : List (List Token × List Call)}
    (h : ∀ part ∈ parts, Scans part.1 part.2) (hne : parts ≠ []) {last : Last}
    (hl : last.name? = none) (name : Option Path) (commas : Nat)
    (lists : List (Option Path × Nat)) :
    ∃ next, next ≠ .opening ∧
      scan ⟨last, (name, commas) :: lists⟩ (separated (parts.map (·.1))) =
        (parts.flatMap (·.2), ⟨next, (name, commas + (parts.length - 1)) :: lists⟩) := by
  induction parts generalizing last commas with
  | nil => exact absurd rfl hne
  | cons part rest ih =>
    obtain ⟨hp, hr⟩ := List.forall_mem_cons.mp h
    obtain ⟨next, hn, hs⟩ := hp last ((name, commas) :: lists) hl
    cases rest with
    | nil => exact ⟨next, hn, by simpa using hs⟩
    | cons other rest =>
      -- The comma after the part is counted, and no name stands before the next part.
      obtain ⟨final, hf, hs'⟩ := @ih hr (List.cons_ne_nil _ _) .other rfl (commas + 1)
      refine ⟨final, hf, ?_⟩
      simp only [List.map_cons] at hs'
      simp only [List.map_cons, separated_cons_cons, scan_append, scan_cons, hs, step, continued, hs']
      simp [Nat.add_assoc, Nat.add_comm 1]

private theorem ended_of_ne {last : Last} (h : last ≠ .opening) (name : Option Path) (commas : Nat)
    (lists : List (Option Path × Nat)) :
    Pending.ended ⟨last, (name, commas) :: lists⟩ = (name.map (·, commas + 1)).toList := by
  cases last <;> cases name <;> first | rfl | exact absurd rfl h

private theorem scan_list {parts : List (List Token × List Call)}
    (h : ∀ part ∈ parts, Scans part.1 part.2) (name : Option Path)
    (lists : List (Option Path × Nat)) {closing : Operator}
    (hc : closing = .groupEnd ∨ closing = .vectorEnd) :
    scan ⟨.opening, (name, 0) :: lists⟩ (separated (parts.map (·.1)) ++ [.operator closing]) =
      (parts.flatMap (·.2) ++ (name.map (·, parts.length)).toList, ⟨.other, lists⟩) := by
  have hstep (pending : Pending) : step pending (.operator closing) =
      (pending.ended, ⟨.other, pending.lists.tail⟩) := by
    rcases hc with rfl | rfl <;> rfl
  -- Without parts the closing delimiter comes right after the opening one.
  by_cases hne : parts = []
  · subst hne
    cases name <;> simp [scan_cons, scan, hstep, Pending.ended]
  · obtain ⟨next, hn, hs⟩ := @scan_separated _ h hne .opening rfl name 0 lists
    have hpos : parts.length - 1 + 1 = parts.length :=
      Nat.succ_pred (mt List.eq_nil_of_length_eq_zero hne)
    rw [scan_append, hs]
    simp [scan, hstep, ended_of_ne hn, hpos]

private theorem Sentence.scans {tokens : List Token} {calls : List Call}
    (h : Sentence tokens calls) : Scans tokens calls := by
  induction h with
  | number value => exact fun last lists _ => ⟨.other, nofun, rfl⟩
  | named path => exact fun last lists _ => ⟨.name path, nofun, rfl⟩
  | apply _ ih =>
    intro last lists _
    refine ⟨.other, nofun, ?_⟩
    simp only [scan_cons, step, scan_list ih _ _ (.inl rfl)]
    rfl
  | @group inner calls _ ih =>
    intro last lists hl
    refine ⟨.other, nofun, ?_⟩
    have hs : scan ⟨.opening, (none, 0) :: lists⟩ (inner ++ [.operator .groupEnd]) =
        (calls, ⟨.other, lists⟩) := by
      have hp : ∀ part ∈ [(inner, calls)], Scans part.1 part.2 := List.forall_mem_singleton.mpr ih
      simpa using scan_list hp none lists (.inl rfl)
    simp only [scan_cons, step, hl, hs]
    rfl
  | vector _ ih =>
    intro last lists _
    refine ⟨.other, nofun, ?_⟩
    simp only [scan_cons, step, scan_list ih _ _ (.inr rfl)]
    simp
  | @signed sign _ _ hs _ ih =>
    intro last lists _
    obtain ⟨next, hn, hscan⟩ := ih .other lists rfl
    refine ⟨next, hn, ?_⟩
    have hstep : step ⟨last, lists⟩ (.operator sign) = ([], ⟨.other, lists⟩) := by
      simp only [List.mem_cons, List.not_mem_nil, or_false] at hs
      rcases hs with rfl | rfl | rfl | rfl <;> rfl
    rw [scan_cons, hstep, hscan]
    rfl
  | @binary operator _ _ _ _ hb _ _ ihl ihr =>
    intro last lists hl
    obtain ⟨middle, -, hleft⟩ := ihl last lists hl
    obtain ⟨next, hn, hright⟩ := ihr .other lists rfl
    refine ⟨next, hn, ?_⟩
    have hstep : step ⟨middle, lists⟩ (.operator operator) = ([], ⟨.other, lists⟩) := by
      cases operator <;> first | rfl | cases hb
    rw [scan_append, hleft, scan_cons, hstep, hright]
    rfl
  | conditional _ _ _ ihc ihy ihn =>
    intro last lists hl
    obtain ⟨first, -, hc⟩ := ihc last lists hl
    obtain ⟨second, -, hy⟩ := ihy .other lists rfl
    obtain ⟨next, hn, hno⟩ := ihn .other lists rfl
    refine ⟨next, hn, ?_⟩
    simp only [scan_append, scan_cons, hc, step, hy, hno]
    rfl
  | index _ _ iht ihi =>
    intro last lists hl
    obtain ⟨middle, -, ht⟩ := iht last lists hl
    refine ⟨.other, nofun, ?_⟩
    rw [scan_append, ht, scan_cons]
    simp only [step, scan_list ihi _ _ (.inr rfl)]
    simp

theorem Sentence.calls_unique {tokens : List Token} {calls others : List Call}
    (h : Sentence tokens calls) (ho : Sentence tokens others) : calls = others := by
  obtain ⟨_, -, hs⟩ := h.scans .other [] rfl
  obtain ⟨_, -, hs'⟩ := ho.scans .other [] rfl
  rw [hs] at hs'
  exact congrArg Prod.fst hs'

end VectorFormula.Grammar
