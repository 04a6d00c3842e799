import PermissionTypes.Proofs.Schema.Running

/-! When a parser fails, and with which failure: one law for each way to build parsers. A parser
that aborts fails for good, and one that rejects fails unless another reading is tried. -/

namespace PermissionTypes.Schema

namespace Parser

def Aborts (parser : Parser α) (cursor : Cursor) (failure : Failure) : Prop :=
  parser.run cursor = .aborted failure

/-- The parser comes to no good end. -/
def Fails (parser : Parser α) (cursor : Cursor) (failure : Failure) : Prop :=
  parser.run cursor = .rejected failure ∨ parser.run cursor = .aborted failure

theorem Aborts.fails {parser : Parser α} {start : Cursor} {failure : Failure}
    (aborts : parser.Aborts start failure) : parser.Fails start failure :=
  .inr aborts

theorem Rejects.not_aborts {parser : Parser α} {start : Cursor} {failure : Failure}
    (rejects : parser.Rejects start) : ¬ parser.Aborts start failure := by
  rcases rejects with ⟨other, equal⟩
  rw [Aborts, equal]
  exact nofun

theorem not_fails_of_done {parser : Parser α} {start stop : Cursor} {value : α}
    (equal : parser.run start = .done value stop) (failure : Failure) :
    ¬ parser.Fails start failure := by
  rw [Fails, equal]
  rintro (impossible | impossible) <;> cases impossible

theorem reaches_of_fails {parser : Parser α} {start : Cursor} {failure : Failure}
    (fails : parser.Fails start failure) : start.Reaches failure.stop := by
  have reaches := parser.reaches start
  rcases fails with equal | equal <;> rwa [equal] at reaches

/-! ## Sequences -/

section Sequences

variable {first : Parser α} {next : α → Parser β} {start : Cursor} {failure : Failure}

theorem not_fails_pure {value : α} : ¬ (pure value : Parser α).Fails start failure :=
  not_fails_of_done rfl failure

theorem fails_bind_iff :
    (first >>= next).Fails start failure ↔ first.Fails start failure ∨
      ∃ value middle, first.run start = .done value middle ∧
        (next value).Fails middle failure := by
  simp only [Fails, run_bind]
  cases first.run start with
  | done value middle =>
      constructor
      · intro fails
        exact .inr ⟨value, middle, rfl, fails⟩
      · rintro ((impossible | impossible) | ⟨_, _, ⟨rfl, rfl⟩, fails⟩)
        · cases impossible
        · cases impossible
        · exact fails
  | rejected other => simp
  | aborted other => simp

theorem aborts_bind_iff :
    (first >>= next).Aborts start failure ↔ first.Aborts start failure ∨
      ∃ value middle, first.run start = .done value middle ∧
        (next value).Aborts middle failure := by
  simp only [Aborts, run_bind]
  cases first.run start with
  | done value middle =>
      constructor
      · intro aborts
        exact .inr ⟨value, middle, rfl, aborts⟩
      · rintro (impossible | ⟨_, _, ⟨rfl, rfl⟩, aborts⟩)
        · cases impossible
        · exact aborts
  | rejected other => simp
  | aborted other => simp

theorem fails_bind_pure_iff {change : α → β} :
    (first >>= fun value => pure (change value)).Fails start failure ↔
      first.Fails start failure := by
  rw [fails_bind_iff]
  constructor
  · rintro (fails | ⟨_, _, _, fails⟩)
    · exact fails
    · exact absurd fails not_fails_pure
  · exact .inl

theorem run_bind_assoc {last : β → Parser γ} :
    (first >>= next >>= last).run start =
      (first >>= fun value => next value >>= last).run start := by
  simp only [run_bind]
  cases first.run start <;> rfl

end Sequences

/-! ## Alternatives -/

section Alternatives

variable {parser first second : Parser α} {start : Cursor} {failure : Failure}

theorem fails_orElse_iff :
    (first <|> second).Fails start failure ↔ first.Aborts start failure ∨
      first.Rejects start ∧ second.Fails start failure := by
  change (Parser.orElse first fun _ => second).Fails start failure ↔ _
  cases equal : first.run start <;> simp [Parser.orElse, Fails, Aborts, Rejects, equal]

theorem aborts_orElse_iff :
    (first <|> second).Aborts start failure ↔ first.Aborts start failure ∨
      first.Rejects start ∧ second.Aborts start failure := by
  change (Parser.orElse first fun _ => second).Aborts start failure ↔ _
  cases equal : first.run start <;> simp [Parser.orElse, Aborts, Rejects, equal]

theorem fails_perhaps_iff : (perhaps parser).Fails start failure ↔ parser.Aborts start failure := by
  cases equal : parser.run start <;> simp [Fails, Aborts, perhaps, equal]

theorem fails_commit_iff : (commit parser).Fails start failure ↔ parser.Fails start failure := by
  cases equal : parser.run start <;> simp [Fails, commit, equal]

theorem fails_within_iff {construct : Construct} :
    (within construct parser).Fails start failure ↔
      ∃ inner, parser.Fails start inner ∧ inner.enclosedBy construct = failure := by
  cases equal : parser.run start <;> simp [Fails, within, Reply.mapFailure, equal]

theorem aborts_within_iff {construct : Construct} :
    (within construct parser).Aborts start failure ↔
      ∃ inner, parser.Aborts start inner ∧ inner.enclosedBy construct = failure := by
  cases equal : parser.run start <;> simp [Aborts, within, Reply.mapFailure, equal]

theorem fails_textOf_iff : (textOf parser).Fails start failure ↔ parser.Fails start failure := by
  cases equal : parser.run start <;> simp [Fails, textOf, equal]

end Alternatives

/-! ## Repetitions -/

/-- A repetition fails where one more reading aborts, or where one has not moved on. -/
theorem fails_many_iff {parser : Parser α} {start : Cursor} {failure : Failure} :
    (many parser).Fails start failure ↔ parser.Aborts start failure ∨
      ∃ value middle, parser.run start = .done value middle ∧
        if start.offset < middle.offset then (many parser).Fails middle failure
        else failure = { stop := start, expectation := .construct, within := [] } := by
  rw [Fails, run_many, Aborts]
  cases parser.run start with
  | rejected other => simp
  | aborted other => simp
  | done value middle =>
      simp only [reduceCtorEq, false_or, Reply.done.injEq, and_assoc, exists_and_left,
        exists_eq_left']
      by_cases moved : start.offset < middle.offset
      · cases more : (many parser).run middle <;> simp [Fails, moved, more]
      · simp [moved, eq_comm]

theorem many_fails_induction {parser : Parser α} {motive : Cursor → Failure → Prop}
    (here : ∀ {start failure}, parser.Aborts start failure → motive start failure)
    (stuck : ∀ {start middle value failure}, parser.run start = .done value middle →
      ¬ start.offset < middle.offset → failure.stop = start → motive start failure)
    (later : ∀ {start middle value failure}, parser.run start = .done value middle →
      start.offset < middle.offset → motive middle failure → motive start failure)
    (start : Cursor) {failure : Failure} (fails : (many parser).Fails start failure) :
    motive start failure := by
  induction bound : start.rest.length using Nat.strongRecOn generalizing start with
  | ind size induction =>
      rcases fails_many_iff.mp fails with aborts | ⟨value, middle, equal, fails⟩
      · exact here aborts
      · split at fails
        · rename_i moved
          have shorter := (reaches_of_done equal).length_lt moved
          exact later equal moved
            (induction middle.rest.length (bound ▸ shorter) middle fails rfl)
        · rename_i stays
          exact stuck equal stays (by rw [fails])

/-- A parser that moves whenever it reads something never makes its repetition reject. -/
theorem aborts_many_of_fails {parser : Parser α}
    (moves : ∀ ⦃value start stop⦄, parser.run start = .done value stop →
      start.offset < stop.offset)
    {start : Cursor} {failure : Failure} (fails : (many parser).Fails start failure) :
    (many parser).Aborts start failure := by
  refine many_fails_induction (motive := (many parser).Aborts) ?_ ?_ ?_ start fails
  · intro start failure aborts
    rw [Aborts, run_many, aborts]
  · intro start middle value failure equal stays _
    exact absurd (moves equal) stays
  · intro start middle value failure equal moved aborts
    rw [Aborts, run_many, equal]
    simp only [moved, if_true]
    rw [aborts]

theorem rejects_of_done_many {parser : Parser α} {start stop : Cursor} {values : List α}
    (equal : (many parser).run start = .done values stop) : parser.Rejects stop := by
  refine many_induction (motive := fun _ _ stop => parser.Rejects stop) ?_ ?_ start equal
  · exact fun _ rejects => rejects
  · exact fun _ _ _ rejects => rejects

/-- What follows a repetition is read behind the first reading, with that reading in front of the
further ones. -/
theorem run_many_bind {parser : Parser α} {next : List α → Parser β} {start : Cursor} :
    (many parser >>= next).run start =
      match parser.run start with
      | .done value middle =>
          if start.offset < middle.offset then
            (many parser >>= fun values => next (value :: values)).run middle
          else .rejected { stop := start, expectation := .construct, within := [] }
      | .rejected _ => (next []).run start
      | .aborted failure => .aborted failure := by
  rw [run_bind, run_many]
  cases parser.run start with
  | done value middle =>
      by_cases moved : start.offset < middle.offset
      · simp only [moved, if_true, run_bind]
        cases (many parser).run middle <;> rfl
      · simp only [moved, if_false]
  | rejected failure => rfl
  | aborted failure => rfl

/-! ## Characters -/

section Characters

variable {start : Cursor} {failure : Failure}

theorem stop_of_fails_oneOf {belongs : Char → Bool} (fails : (oneOf belongs).Fails start failure) :
    failure.stop = start := by
  unfold Fails oneOf at fails
  dsimp only at fails
  split at fails
  · rcases fails with equal | equal <;> cases equal
    rfl
  · split at fails
    · rcases fails with equal | equal <;> cases equal
    · rcases fails with equal | equal <;> cases equal
      rfl

theorem stop_of_fails_character {wanted : Char} (fails : (character wanted).Fails start failure) :
    failure.stop = start := by
  unfold Fails character at fails
  dsimp only at fails
  split at fails
  · rcases fails with equal | equal <;> cases equal
    rfl
  · split at fails
    · rcases fails with equal | equal <;> cases equal
    · rcases fails with equal | equal <;> cases equal
      rfl

theorem not_aborts_oneOf {belongs : Char → Bool} : ¬ (oneOf belongs).Aborts start failure := by
  unfold Aborts oneOf
  dsimp only
  split
  · simp
  · split <;> simp

theorem not_aborts_character {wanted : Char} : ¬ (character wanted).Aborts start failure := by
  unfold Aborts character
  dsimp only
  split
  · simp
  · split <;> simp

theorem not_aborts_exactly {text : List Char} : ¬ (exactly text).Aborts start failure := by
  unfold Aborts exactly
  dsimp only
  split <;> simp

theorem not_aborts_notBefore {belongs : Char → Bool} :
    ¬ (notBefore belongs).Aborts start failure := by
  unfold Aborts notBefore
  dsimp only
  split
  · simp
  · split <;> simp

theorem not_fails_takeWhile {belongs : Char → Bool} :
    ¬ (takeWhile belongs).Fails start failure :=
  not_fails_of_done rfl failure

theorem stop_of_fails_exactly {text : List Char} (fails : (exactly text).Fails start failure) :
    failure.stop = start := by
  unfold Fails exactly at fails
  dsimp only at fails
  split at fails
  · rcases fails with equal | equal <;> cases equal
  · rcases fails with equal | equal <;> cases equal
    rfl

theorem stop_of_fails_notBefore {belongs : Char → Bool}
    (fails : (notBefore belongs).Fails start failure) : failure.stop = start := by
  unfold Fails notBefore at fails
  dsimp only at fails
  split at fails
  · rcases fails with equal | equal <;> cases equal
  · split at fails
    · rcases fails with equal | equal <;> cases equal
      rfl
    · rcases fails with equal | equal <;> cases equal

theorem fails_endOfText_iff :
    endOfText.Fails start failure ↔
      start.rest ≠ [] ∧ failure = { stop := start, expectation := .endOfText, within := [] } := by
  cases equal : start.rest <;> simp [Fails, endOfText, equal, eq_comm]

end Characters

end Parser
end PermissionTypes.Schema
