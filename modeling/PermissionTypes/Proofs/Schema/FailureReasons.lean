import PermissionTypes.Proofs.Schema.Progress

/-! Why a text cannot be read as a schema: either a construct that has begun does not come to its
end, or a whole schema has been read and nothing that follows it begins an item. -/

namespace PermissionTypes.Schema

open Text (byteLength)
open Schema.Parser
open Grammar (IsIdentifier IsOpenComment)

/-! ## Failures inside constructs -/

/-- A construct that begins where the cursor is, or behind it, has not come to its end. -/
structure Failure.IsInside (failure : Failure) (start : Cursor) : Prop where
  behind : start.offset < failure.stop.offset
  enclosed : failure.within ≠ []

theorem Failure.IsInside.of_reaches {failure : Failure} {start middle : Cursor}
    (isInside : failure.IsInside middle) (reaches : start.Reaches middle) :
    failure.IsInside start where
  behind := Nat.lt_of_le_of_lt reaches.offset_le isInside.behind
  enclosed := isInside.enclosed

theorem isInside_of_fails_within {construct : Construct} {body : Parser α} {start middle : Cursor}
    {failure : Failure} {text : List Char} (reads : start.Reads text middle) (notNil : text ≠ [])
    (fails : (within construct body).Fails middle failure) : failure.IsInside start := by
  rcases fails_within_iff.mp fails with ⟨inner, innerFails, rfl⟩
  refine ⟨?_, by simp [Failure.enclosedBy]⟩
  have further : middle.offset ≤ inner.stop.offset := (reaches_of_fails innerFails).offset_le
  exact Nat.lt_of_lt_of_le (reads.moves notNil) further

/-! ### Trivia -/

namespace Trivia

theorem not_aborts_blanks {start : Cursor} {failure : Failure} : ¬ blanks.Aborts start failure := by
  intro aborts
  rcases aborts_bind_iff.mp aborts with aborts | ⟨_, _, _, aborts⟩
  · exact not_aborts_oneOf aborts
  · exact not_fails_takeWhile (fails_bind_pure_iff.mp aborts.fails)

theorem not_aborts_lineComment {start : Cursor} {failure : Failure} :
    ¬ lineComment.Aborts start failure := by
  intro aborts
  rcases aborts_bind_iff.mp aborts with aborts | ⟨_, _, _, aborts⟩
  · exact not_aborts_exactly aborts
  · exact not_fails_takeWhile (fails_bind_pure_iff.mp aborts.fails)

theorem aborts_blockComment_of_aborts_piece {start : Cursor} {failure : Failure}
    (aborts : piece.Aborts start failure) : blockComment.Aborts start failure := by
  rcases aborts_orElse_iff.mp aborts with aborts | ⟨_, aborts⟩
  · exact absurd aborts not_aborts_blanks
  rcases aborts_orElse_iff.mp aborts with aborts | ⟨_, aborts⟩
  · exact absurd aborts not_aborts_lineComment
  · exact aborts

theorem isInside_of_aborts_piece {start : Cursor} {failure : Failure}
    (aborts : piece.Aborts start failure) : failure.IsInside start := by
  rcases aborts_bind_iff.mp (aborts_blockComment_of_aborts_piece aborts) with
    aborts | ⟨_, middle, opening, aborts⟩
  · exact absurd aborts not_aborts_exactly
  · exact isInside_of_fails_within (done_exactly_iff.mp opening) (List.cons_ne_nil _ _)
      (fails_commit_iff.mp aborts.fails)

end Trivia

theorem isInside_of_fails_trivia {start : Cursor} {failure : Failure}
    (fails : trivia.Fails start failure) : failure.IsInside start := by
  refine many_fails_induction (motive := fun start failure => failure.IsInside start)
    ?_ ?_ ?_ start (fails_bind_pure_iff.mp fails)
  · exact Trivia.isInside_of_aborts_piece
  · intro start middle _ failure equal stays _
    exact absurd (advances_piece.moves equal) stays
  · intro start middle _ failure equal _ isInside
    exact isInside.of_reaches (reaches_of_done equal)

theorem not_rejects_trivia {start : Cursor} : ¬ trivia.Rejects start := by
  intro rejects
  rcases rejects_bind_iff.mp rejects with rejects | ⟨_, _, _, rejects⟩
  · exact advances_piece.not_rejects_many start rejects
  · exact not_rejects_pure rejects

/-! ### Items -/

theorem not_aborts_keyword {word : String} {start : Cursor} {failure : Failure} :
    ¬ (keyword word).Aborts start failure := by
  intro aborts
  rcases aborts_bind_iff.mp aborts with aborts | ⟨_, _, _, aborts⟩
  · exact not_aborts_exactly aborts
  · exact not_aborts_notBefore aborts

/-- An item makes the whole text wrong only behind its keyword. -/
theorem isInside_of_aborts_construct {word : String} {construct : Construct} {body : Parser α}
    (notNil : word.toList ≠ []) {start : Cursor} {failure : Failure}
    (aborts : (keyword word >>= fun _ => commit (within construct body)).Aborts start failure) :
    failure.IsInside start := by
  rcases aborts_bind_iff.mp aborts with aborts | ⟨_, middle, wordEqual, aborts⟩
  · exact absurd aborts not_aborts_keyword
  · rcases done_bind_iff.mp wordEqual with ⟨_, _, exactEqual, ends⟩
    obtain rfl := (done_notBefore_iff.mp ends).1
    exact isInside_of_fails_within (done_exactly_iff.mp exactEqual) notNil
      (fails_commit_iff.mp aborts.fails)

theorem isInside_of_aborts_item {start : Cursor} {failure : Failure}
    (aborts : item.Aborts start failure) : failure.IsInside start := by
  rcases aborts_orElse_iff.mp aborts with aborts | ⟨_, aborts⟩
  · exact isInside_of_aborts_construct (by decide) aborts
  rcases aborts_orElse_iff.mp aborts with aborts | ⟨_, aborts⟩
  · exact isInside_of_aborts_construct (by decide) aborts
  · exact isInside_of_aborts_construct (by decide) aborts

theorem isInside_of_fails_entries {start : Cursor} {failure : Failure}
    (fails : (entries item).Fails start failure) : failure.IsInside start := by
  refine many_fails_induction (motive := fun start failure => failure.IsInside start)
    ?_ ?_ ?_ start fails
  · intro start failure aborts
    rcases aborts_bind_iff.mp aborts with aborts | ⟨_, middle, equal, aborts⟩
    · exact isInside_of_aborts_item aborts
    · exact (isInside_of_fails_trivia (fails_bind_pure_iff.mp aborts.fails)).of_reaches
        (reaches_of_done equal)
  · intro start middle value failure equal stays _
    rcases done_bind_iff.mp equal with ⟨_, behind, itemEqual, equal⟩
    have moved := advances_item.moves itemEqual
    have further := (reaches_of_done equal).offset_le
    omega
  · intro start middle value failure equal _ isInside
    exact isInside.of_reaches (reaches_of_done equal)

def entriesBehindTrivia : Parser (List Item) := do
  trivia
  entries item

theorem isInside_of_fails_entriesBehindTrivia {start : Cursor} {failure : Failure}
    (fails : entriesBehindTrivia.Fails start failure) : failure.IsInside start := by
  rcases fails_bind_iff.mp fails with fails | ⟨_, middle, equal, fails⟩
  · exact isInside_of_fails_trivia fails
  · exact (isInside_of_fails_entries fails).of_reaches (reaches_of_done equal)

/-- What remains is a text that has been read as items, and something behind it. -/
theorem fails_items_iff {start : Cursor} {failure : Failure} :
    items.Fails start failure ↔ entriesBehindTrivia.Fails start failure ∨
      ∃ read stop, entriesBehindTrivia.run start = .done read stop ∧ stop.rest ≠ [] ∧
        failure = { stop, expectation := .endOfText, within := [] } := by
  have assoc : items.run start = (entriesBehindTrivia >>= fun read => endOfText >>= fun _ =>
      pure read).run start := run_bind_assoc.symm
  rw [Fails, assoc]
  refine fails_bind_iff.trans (or_congr_right ?_)
  refine exists_congr fun read => exists_congr fun stop => and_congr_right fun _ => ?_
  exact fails_bind_pure_iff.trans fails_endOfText_iff

/-! ## Messages -/

namespace Failure

theorem toList_inside (expected : String) (around : List Construct) :
    ∃ more, (inside expected around).toList = expected.toList ++ more := by
  cases around with
  | nil => exact ⟨[], (List.append_nil _).symm⟩
  | cons construct around =>
      refine ⟨(" in " ++ construct.describe).toList, ?_⟩
      rw [inside, String.append_assoc, String.toList_append]

theorem toList_describe_construct (construct : Construct) :
    ∃ next more, construct.describe.toList = next :: more ∧ next ≠ '\x60' := by
  cases construct <;> exact ⟨_, _, rfl, by decide⟩

/-- Where a construct has begun, something is expected that is no keyword. -/
theorem IsInside.toList_describe {failure : Failure} {start : Cursor}
    (isInside : failure.IsInside start) :
    ∃ next more, failure.describe.toList = "expected ".toList ++ next :: more ∧ next ≠ '\x60' := by
  rcases failure with ⟨stop, expectation, within⟩
  cases within with
  | nil => exact absurd rfl isInside.enclosed
  | cons construct around =>
      have named : ∃ next more, (inside ("expected " ++ construct.describe) around).toList =
          "expected ".toList ++ next :: more ∧ next ≠ '\x60' := by
        rcases toList_describe_construct construct with ⟨next, more, equal, notTick⟩
        rcases toList_inside ("expected " ++ construct.describe) around with ⟨rest, insideEqual⟩
        exact ⟨next, more ++ rest, by simp [insideEqual, equal], notTick⟩
      cases expectation with
      | character wanted =>
          rcases toList_inside ("expected '" ++ wanted.toString ++ "'") (construct :: around) with
            ⟨rest, insideEqual⟩
          refine ⟨'\'', wanted.toString.toList ++ '\'' :: rest, ?_, by decide⟩
          rw [describe, insideEqual]
          simp
      | endOfText => exact named
      | construct => exact named

theorem IsInside.describe_not_mem {failure : Failure} {start : Cursor}
    (isInside : failure.IsInside start) :
    failure.describe ∉ ["expected `definition`, `caveat` or `use`", "incomplete schema",
      "invalid schema", "unexpected input"] := by
  rcases isInside.toList_describe with ⟨next, more, equal, notTick⟩
  intro member
  simp only [List.mem_cons, List.not_mem_nil, or_false] at member
  rcases member with message | message | message | message
  · rw [message] at equal
    have cut : "expected ".toList ++ '\x60' :: "definition`, `caveat` or `use`".toList =
      "expected ".toList ++ next :: more := equal
    exact notTick (List.cons.inj (List.append_cancel_left cut)).1.symm
  · rw [message] at equal
    cases congrArg List.head? equal
  · rw [message] at equal
    cases congrArg List.head? equal
  · rw [message] at equal
    cases congrArg List.head? equal

end Failure

end PermissionTypes.Schema
