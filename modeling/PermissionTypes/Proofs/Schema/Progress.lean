import PermissionTypes.Proofs.Schema.CorrectPrefix

/-! Progress. No parser goes back in its text, what is repeated always moves on, and what is nested
begins with fewer characters left than the construct around it. So a text is always read to an end,
good or bad. -/

namespace PermissionTypes.Schema

open Text (byteLength)

/-! ## Parsers that move on -/

namespace Parser

def Advances (parser : Parser α) : Prop :=
  ∀ ⦃value start stop⦄, parser.run start = .done value stop →
    stop.rest.length < start.rest.length

namespace Advances

variable {parser first second : Parser α}

theorem of_moves (moves : ∀ ⦃value start stop⦄, parser.run start = .done value stop →
    start.offset < stop.offset) : parser.Advances := by
  intro value start stop equal
  exact (reaches_of_done equal).length_lt (moves equal)

theorem moves (advances : parser.Advances) ⦃value : α⦄ ⦃start stop : Cursor⦄
    (equal : parser.run start = .done value stop) : start.offset < stop.offset := by
  have shorter := advances equal
  rcases reaches_of_done equal with ⟨text, reads⟩
  apply reads.moves
  rintro rfl
  rw [reads.rest_eq, List.nil_append] at shorter
  exact Nat.lt_irrefl _ shorter

/-! One part that moves on is enough for a sequence. -/

theorem bind_left (advances : first.Advances) (next : α → Parser β) :
    (first >>= next).Advances := by
  intro value start stop equal
  rcases done_bind_iff.mp equal with ⟨_, middle, firstEqual, nextEqual⟩
  exact Nat.lt_of_le_of_lt (reaches_of_done nextEqual).length_le (advances firstEqual)

theorem bind_right (first : Parser α) {next : α → Parser β}
    (advances : ∀ value, (next value).Advances) : (first >>= next).Advances := by
  intro value start stop equal
  rcases done_bind_iff.mp equal with ⟨found, middle, firstEqual, nextEqual⟩
  exact Nat.lt_of_lt_of_le (advances found nextEqual) (reaches_of_done firstEqual).length_le

theorem orElse (advances : first.Advances) (advancesSecond : second.Advances) :
    (first <|> second).Advances := by
  intro value start stop equal
  rcases done_orElse_iff.mp equal with equal | ⟨_, equal⟩
  · exact advances equal
  · exact advancesSecond equal

theorem within (construct : Construct) (advances : parser.Advances) :
    (within construct parser).Advances :=
  fun _ _ _ equal => advances (done_within_iff.mp equal)

theorem character (wanted : Char) : (character wanted).Advances :=
  of_moves fun _ _ _ equal => (done_character_iff.mp equal).moves (List.cons_ne_nil _ _)

theorem oneOf (belongs : Char → Bool) : (oneOf belongs).Advances :=
  of_moves fun _ _ _ equal => (done_oneOf_iff.mp equal).2.moves (List.cons_ne_nil _ _)

theorem exactly {text : List Char} (notNil : text ≠ []) : (exactly text).Advances :=
  of_moves fun _ _ _ equal => (done_exactly_iff.mp equal).moves notNil

/-- The repetition of a parser that moves on never finds one that has not. -/
theorem not_rejects_many (advances : parser.Advances) (start : Cursor) :
    ¬ (many parser).Rejects start := by
  rintro ⟨failure, equal⟩
  have aborts := aborts_many_of_fails advances.moves (.inl equal)
  exact Rejects.not_aborts ⟨failure, equal⟩ aborts

end Advances
end Parser

open Schema.Parser

/-! ### Trivia and words -/

theorem advances_piece : Trivia.piece.Advances := by
  apply Advances.orElse
  · exact (Advances.oneOf _).bind_left _
  · apply Advances.orElse
    · exact (Advances.exactly (by decide)).bind_left _
    · exact (Advances.exactly (by decide)).bind_left _

theorem advances_gap : gap.Advances :=
  Advances.bind_left (advances_piece.bind_left _) _

theorem advances_identifier : identifier.Advances :=
  .within _ ((Advances.oneOf _).bind_left _)

theorem advances_typeName : typeName.Advances :=
  .within _ (advances_identifier.bind_left _)

theorem Parser.Advances.named {parser : Parser (List Char)} (advances : parser.Advances) :
    (named parser).Advances :=
  .bind_right offset fun _ => advances.bind_left _

theorem advances_keyword {word : String} (notNil : word.toList ≠ []) : (keyword word).Advances :=
  (Advances.exactly notNil).bind_left _

/-! ### Expressions -/

/-- What stands behind an operator does not matter, because the operator itself is read. -/
theorem advances_operation {operator : Parser Unit} (advances : operator.Advances)
    (operand : Parser Expression) : (Expression.operation operator operand).Advances :=
  .bind_right trivia fun _ => advances.bind_left _

/-! ### Definitions -/

theorem advances_subjectType : subjectType.Advances :=
  .within _ (advances_typeName.named.bind_left _)

theorem advances_member : member.Advances :=
  .orElse ((advances_keyword (by decide)).bind_left _) ((advances_keyword (by decide)).bind_left _)

/-! ### Caveats -/

theorem advances_typeShape (argument : Parser Unit) : (Parameter.typeShape argument).Advances :=
  advances_identifier.bind_left _

theorem advances_nestedType (depth : Nat) : (Parameter.nestedType depth).Advances := by
  cases depth with
  | zero => exact fun _ _ _ equal => nomatch equal
  | succ depth => exact advances_typeShape _

theorem advances_wholeType : Parameter.wholeType.Advances :=
  fun _ start _ equal => advances_nestedType (start.rest.length + 1) equal

theorem advances_parameter : parameter.Advances :=
  .within _ (advances_identifier.bind_left _)

/-! ### Items -/

theorem advances_item : item.Advances := by
  apply Advances.orElse
  · exact (advances_keyword (by decide)).bind_left _
  · apply Advances.orElse
    · exact (advances_keyword (by decide)).bind_left _
    · exact (advances_keyword (by decide)).bind_left _

/-! ## Repetitions -/

/-- The parsers that are read as often as they can be. Operators are repeated at every depth of an
expression, so there is no telling what their operands are. -/
inductive IsRepeated : {α : Type} → Parser α → Prop
  | trivia : IsRepeated Trivia.piece
  | path : IsRepeated (do
      character '/'
      identifier)
  | exclusion (operand : Parser Expression) :
      IsRepeated (Expression.operation Expression.minus operand)
  | intersection (operand : Parser Expression) :
      IsRepeated (Expression.operation (character '&') (Expression.exclusions operand))
  | union (operand : Parser Expression) :
      IsRepeated (Expression.operation (character '+') (Expression.intersections operand))
  | member : IsRepeated (do
      let member ← member
      trivia
      pure member)
  | item : IsRepeated (do
      let item ← item
      trivia
      pure item)

inductive IsListed : {α : Type} → Parser Unit → Parser α → Prop
  | trait : IsListed (do gap; keyword "and"; gap) (named typeName)
  | subjectType : IsListed (do trivia; character '|'; trivia) subjectType
  | type : IsListed (do trivia; character ','; trivia) Parameter.wholeType
  | nestedType (depth : Nat) :
      IsListed (do trivia; character ','; trivia) (Parameter.nestedType depth)
  | parameter : IsListed (do trivia; character ','; trivia) parameter

theorem IsRepeated.advances {α : Type} {body : Parser α} (isRepeated : IsRepeated body) :
    body.Advances := by
  cases isRepeated with
  | trivia => exact advances_piece
  | path => exact (Advances.character '/').bind_left _
  | exclusion operand => exact advances_operation ((Advances.character '-').bind_left _) operand
  | intersection operand => exact advances_operation (.character '&') _
  | union operand => exact advances_operation (.character '+') _
  | member => exact advances_member.bind_left _
  | item => exact advances_item.bind_left _

theorem advances_signBetween (sign : Char) : (signBetween sign).Advances :=
  .bind_right trivia fun _ => (Advances.character sign).bind_left _

theorem IsListed.advances {α : Type} {separator : Parser Unit} {body : Parser α}
    (isListed : IsListed separator body) : separator.Advances ∧ body.Advances := by
  cases isListed with
  | trait => exact ⟨advances_gap.bind_left _, advances_typeName.named⟩
  | subjectType => exact ⟨advances_signBetween '|', advances_subjectType⟩
  | type => exact ⟨advances_signBetween ',', advances_wholeType⟩
  | nestedType depth => exact ⟨advances_signBetween ',', advances_nestedType depth⟩
  | parameter => exact ⟨advances_signBetween ',', advances_parameter⟩

/-! ## Nested constructs -/

/-- A parser is built from itself by a rule for one level. Where the rule reads what is inside,
fewer characters are left, so that any other parser can stand there that does the same on these. No
other parser is built from itself by the rule. -/
structure IsNested (level : Parser α → Parser α) (parser : Parser α) : Prop where
  unfolds : ∀ start, parser.run start = (level parser).run start
  shorter : ∀ (other : Parser α) (start : Cursor),
    (∀ inner : Cursor, inner.rest.length < start.rest.length →
      other.run inner = parser.run inner) → (level other).run start = parser.run start
  only : ∀ other : Parser α, (∀ start, other.run start = (level other).run start) →
    ∀ start, other.run start = parser.run start

theorem isNested_of_shortens {level : Parser α → Parser α} {parser : Parser α}
    (shortens : Shortens level) (unfolds : ∀ start, parser.run start = (level parser).run start) :
    IsNested level parser := by
  have shorter (other : Parser α) (start : Cursor)
      (agree : ∀ inner : Cursor, inner.rest.length < start.rest.length →
        other.run inner = parser.run inner) : (level other).run start = parser.run start := by
    rw [unfolds]
    exact shortens agree start (Nat.le_refl _)
  refine ⟨unfolds, shorter, ?_⟩
  intro other otherUnfolds start
  -- By induction on the number of characters that are left.
  induction bound : start.rest.length using Nat.strongRecOn generalizing start with
  | ind size induction =>
      rw [otherUnfolds]
      apply shorter
      intro inner fewer
      exact induction _ (bound ▸ fewer) inner rfl

theorem isNested_expression :
    IsNested (fun inner => Expression.unions (Expression.operand inner)) expression :=
  isNested_of_shortens Expression.unions_shortens run_expression

theorem isNested_wholeType : IsNested Parameter.typeShape Parameter.wholeType :=
  isNested_of_shortens Parameter.typeShape_shortens Parameter.run_wholeType

/-! ## Endings -/

theorem Cursor.Reaches.isSuffix {start stop : Cursor} (reaches : start.Reaches stop) :
    stop.rest <:+ start.rest := by
  rcases reaches with ⟨text, reads⟩
  exact ⟨text, reads.rest_eq.symm⟩

theorem parse_ends (schema : String) :
    (∃ items, parse schema = .ok items) ∨
      ∃ (failure : Failure) (before after : List Char),
        parse schema = .error (.atOffset failure.describe schema failure.stop.offset) ∧
          schema.toList = before ++ after ∧ byteLength before = failure.stop.offset := by
  cases parsed : parse schema with
  | ok items => exact .inl ⟨items, rfl⟩
  | error diagnostic =>
      rcases exists_failure_of_parse parsed with ⟨failure, readEqual, rfl⟩
      rcases reaches_of_fails (read_eq_error_iff.mp readEqual) with ⟨before, reads⟩
      refine .inr ⟨failure, before, failure.stop.rest, rfl, reads.rest_eq, ?_⟩
      rw [reads.offset_eq, Cursor.ofText, Nat.zero_add]

/-- Every parser ends, with or without success, at an end of the text that it begins with. What is
repeated, and every separator, leaves fewer characters than it begins with, and no repetition is
given up because one has not. Constructs inside of others begin with fewer characters, too. So each
text is read as a schema or gives a diagnostic about one of its places. -/
theorem parsers_progress :
    (∀ {α : Type} (parser : Parser α) (start : Cursor),
        (∀ value stop, parser.run start = .done value stop → stop.rest <:+ start.rest) ∧
          ∀ failure, parser.Fails start failure → failure.stop.rest <:+ start.rest) ∧
      (∀ {α : Type} {body : Parser α}, IsRepeated body →
        body.Advances ∧ ∀ start, ¬ (many body).Rejects start) ∧
      (∀ {α : Type} {separator : Parser Unit} {body : Parser α}, IsListed separator body →
        separator.Advances ∧ body.Advances ∧
          ∀ start, ¬ (many (do separator; body)).Rejects start) ∧
      IsNested (fun inner => Expression.unions (Expression.operand inner)) expression ∧
      IsNested Parameter.typeShape Parameter.wholeType ∧
      ∀ schema, (∃ items, parse schema = .ok items) ∨
        ∃ (failure : Failure) (before after : List Char),
          parse schema = .error (.atOffset failure.describe schema failure.stop.offset) ∧
            schema.toList = before ++ after ∧ byteLength before = failure.stop.offset := by
  refine ⟨?_, ?_, ?_, isNested_expression, isNested_wholeType, parse_ends⟩
  · intro α parser start
    constructor
    · intro value stop equal
      exact (reaches_of_done equal).isSuffix
    · intro failure fails
      exact (reaches_of_fails fails).isSuffix
  · intro α body isRepeated
    exact ⟨isRepeated.advances, isRepeated.advances.not_rejects_many⟩
  · intro α separator body isListed
    rcases isListed.advances with ⟨ofSeparator, ofBody⟩
    exact ⟨ofSeparator, ofBody, (ofSeparator.bind_left fun _ => body).not_rejects_many⟩

end PermissionTypes.Schema
