import PermissionTypes.Proofs.Schema.Beginnings
import PermissionTypes.Proofs.Schema.Failing

/-! Parsers that notice failures in time. A parser is *viable* if whatever it has read when it fails
begins a text of the grammar, and *completable* if there are also such texts at every place. -/

namespace PermissionTypes.Schema

open Schema.Parser
open Spelling (anyOf)
open Trivia (isLineEnd)
open Grammar (IsTrivia)

namespace Parser

/-! ## Viable parsers -/

/-- What has been read when the parser fails begins a text of the spelling. -/
def Viable (parser : Parser α) (spelling : Spelling) : Prop :=
  ∀ ⦃start failure⦄, parser.Fails start failure → start.Begins spelling failure.stop

def ReadsAs (parser : Parser α) (spelling : Spelling) : Prop :=
  ∀ ⦃value start stop⦄, parser.run start = .done value stop → start.Spells spelling stop

namespace Viable

/-- A parser that fails where it starts has read nothing that could be wrong. -/
theorem of_stop {parser : Parser α} (stays : ∀ ⦃start failure⦄, parser.Fails start failure →
    failure.stop = start) (spelling : Spelling) : parser.Viable spelling := by
  intro start failure fails
  rw [stays fails]
  exact .refl start spelling

theorem mono {parser : Parser α} {first second : Spelling} (viable : parser.Viable first)
    (within : first.Within second) : parser.Viable second :=
  fun _ _ fails => (viable fails).mono within

section Sequences

variable {first : Parser α} {next : α → Parser β} {front back : Spelling}

theorem bind (readsAs : first.ReadsAs front) (firstViable : first.Viable front)
    (nextViable : ∀ value, (next value).Viable back) (continues : front.Continues back) :
    (first >>= next).Viable (front ++ back) := by
  intro start failure fails
  rcases fails_bind_iff.mp fails with fails | ⟨value, middle, equal, fails⟩
  · exact (firstViable fails).append_right continues
  · exact .append (readsAs equal) (nextViable value fails) continues

theorem bind_pure (viable : first.Viable front) (change : α → β) :
    (first >>= fun value => pure (change value)).Viable front :=
  fun _ _ fails => viable (fails_bind_pure_iff.mp fails)

end Sequences

section Alternatives

variable {parser first second : Parser α} {spelling : Spelling}

theorem orElse (firstViable : first.Viable spelling) (secondViable : second.Viable spelling) :
    (first <|> second).Viable spelling := by
  intro start failure fails
  rcases fails_orElse_iff.mp fails with aborts | ⟨_, fails⟩
  · exact firstViable aborts.fails
  · exact secondViable fails

theorem perhaps (viable : parser.Viable spelling) : (perhaps parser).Viable spelling :=
  fun _ _ fails => viable (fails_perhaps_iff.mp fails).fails

theorem commit (viable : parser.Viable spelling) : (commit parser).Viable spelling :=
  fun _ _ fails => viable (fails_commit_iff.mp fails)

theorem within (construct : Construct) (viable : parser.Viable spelling) :
    (within construct parser).Viable spelling := by
  intro start failure fails
  rcases fails_within_iff.mp fails with ⟨inner, innerFails, rfl⟩
  have begins : start.Begins spelling inner.stop := viable innerFails
  exact begins

/-- Readings that have not failed stay where they are, and the last one is viable. -/
theorem many (readsAs : parser.ReadsAs spelling) (viable : parser.Viable spelling) :
    (many parser).Viable (.repeated spelling) := by
  intro start failure fails
  refine many_fails_induction
    (motive := fun start failure => start.Begins (.repeated spelling) failure.stop)
    ?_ ?_ ?_ start fails
  · intro start failure aborts
    exact (viable aborts.fails).mono (Spelling.repeated_of_once spelling)
  · intro start _ _ failure _ _ stays
    rw [stays]
    exact .refl start _
  · intro start middle value failure equal _ begins
    exact (Cursor.Begins.append (readsAs equal) begins
      ((Spelling.detached_repeated spelling).continues _)).mono
        (Spelling.repeated_of_append spelling)

end Alternatives
end Viable

/-! ### Trivia -/

/-- Only a block comment that is never closed makes trivia fail behind its beginning. -/
theorem stop_of_fails_piece {start : Cursor} {failure : Failure}
    (fails : Trivia.piece.Fails start failure) :
    failure.stop = start ∨ start.Reads ['/', '*'] failure.stop := by
  rcases fails_orElse_iff.mp fails with aborts | ⟨_, fails⟩
  · rcases fails_bind_iff.mp aborts.fails with fails | ⟨_, _, _, fails⟩
    · exact .inl (stop_of_fails_oneOf fails)
    · exact absurd (fails_bind_pure_iff.mp fails) not_fails_takeWhile
  rcases fails_orElse_iff.mp fails with aborts | ⟨_, fails⟩
  · rcases fails_bind_iff.mp aborts.fails with fails | ⟨_, _, _, fails⟩
    · exact .inl (stop_of_fails_exactly fails)
    · exact absurd (fails_bind_pure_iff.mp fails) not_fails_takeWhile
  · rcases fails_bind_iff.mp fails with fails | ⟨_, middle, opening, fails⟩
    · exact .inl (stop_of_fails_exactly fails)
    · rcases fails_within_iff.mp (fails_commit_iff.mp fails) with ⟨inner, innerFails, rfl⟩
      have stays : inner.stop = middle := by
        unfold Fails Trivia.restOfBlockComment at innerFails
        dsimp only at innerFails
        split at innerFails
        · rcases innerFails with equal | equal <;> cases equal
        · rcases innerFails with equal | equal <;> cases equal
          rfl
      have reads : start.Reads ['/', '*'] inner.stop := stays ▸ done_exactly_iff.mp opening
      exact .inr reads

theorem begins_trivia_of_opening {start stop : Cursor} (reads : start.Reads ['/', '*'] stop) :
    start.Begins Grammar.trivia stop := by
  have closed : IsTrivia ('/' :: '*' :: ([] ++ ['*', '/'])) :=
    Trivia.isTrivia_of_piece (.blockComment (by simp))
  exact ⟨['/', '*'], ['*', '/'], reads, fun _ => closed⟩

theorem viable_trivia : trivia.Viable Grammar.trivia := by
  intro start failure fails
  refine many_fails_induction
    (motive := fun start failure => start.Begins Grammar.trivia failure.stop)
    ?_ ?_ ?_ start (fails_bind_pure_iff.mp fails)
  · intro start failure aborts
    rcases stop_of_fails_piece aborts.fails with stays | opening
    · rw [stays]
      exact .refl start _
    · exact begins_trivia_of_opening opening
  · intro start _ _ failure _ _ stays
    rw [stays]
    exact .refl start _
  · intro start middle _ failure equal _ begins
    rcases Trivia.of_done_piece equal with ⟨piece, notNil, readsPiece, kind⟩
    rcases begins with ⟨text, more, reads, isTrivia⟩
    -- The piece is completed by nothing or by the line end of a comment.
    have completed (isPiece : IsTrivia piece) : start.Begins Grammar.trivia failure.stop := by
      by_cases empty : text = []
      · subst empty
        rw [← Cursor.reads_nil_iff.mp reads] at readsPiece
        exact ⟨piece, [], readsPiece, fun _ => by rwa [List.append_nil]⟩
      · refine ⟨piece ++ text, more, readsPiece.trans reads, fun _ => ?_⟩
        rw [List.append_assoc]
        exact Trivia.isTrivia_append isPiece (isTrivia empty)
    rcases kind with blank | ⟨comment, rfl, inLine, lineEnds⟩ | isPiece
    · exact completed (Trivia.isTrivia_of_blanks blank)
    · cases text with
      | nil =>
          have newline : isLineEnd '\n' = true := rfl
          have ended := Trivia.isTrivia_of_piece (.lineComment inLine newline)
          rw [← Cursor.reads_nil_iff.mp reads] at readsPiece
          exact ⟨_, ['\n'], readsPiece, fun _ => ended⟩
      | cons lineEnd text =>
          have ends := lineEnds lineEnd (by simp [reads.rest_eq])
          have piece := Trivia.isTrivia_of_piece (.lineComment inLine ends)
          have behind := Trivia.isTrivia_of_lineEnd_cons ends (isTrivia (List.cons_ne_nil _ _))
          have whole := Trivia.isTrivia_append piece behind
          refine ⟨_, more, readsPiece.trans reads, fun _ => ?_⟩
          have isTrivia : IsTrivia ('/' :: '/' :: comment ++ lineEnd :: text ++ more) := by
            simpa using whole
          exact isTrivia
    · exact completed (Trivia.isTrivia_of_piece isPiece)

theorem viable_gap : gap.Viable Grammar.gap := by
  intro start failure fails
  by_cases absent : Trivia.Absent start.rest
  · have pieceFails : Trivia.piece.Fails start failure := by
      rcases fails_bind_iff.mp (fails_bind_pure_iff.mp fails) with fails | ⟨_, _, equal, _⟩
      · exact fails
      · rcases Trivia.rejects_piece absent with ⟨other, rejected⟩
        rw [equal] at rejected
        cases rejected
    rcases stop_of_fails_piece pieceFails with stays | opening
    · rw [stays]
      exact .refl start _
    · exact absurd ⟨_, opening.rest_eq.symm⟩ absent.2.2
  · have triviaFails : trivia.Fails start failure := by
      rwa [Fails, ← run_gap absent]
    rcases viable_trivia triviaFails with ⟨text, more, reads, isTrivia⟩
    exact ⟨text, more, reads, fun notNil => ⟨isTrivia notNil, by simp [notNil]⟩⟩

/-! ### Signs, words and names -/

theorem viable_keyword (word : String) : (keyword word).Viable (Grammar.word word) := by
  intro start failure fails
  rcases fails_bind_iff.mp fails with fails | ⟨_, middle, equal, fails⟩
  · rw [stop_of_fails_exactly fails]
    exact .refl start _
  · rw [stop_of_fails_notBefore fails]
    exact ⟨word.toList, [], done_exactly_iff.mp equal, fun _ => List.append_nil _⟩

theorem stop_of_fails_identifier {start : Cursor} {failure : Failure}
    (fails : identifier.Fails start failure) : failure.stop = start := by
  rcases fails_within_iff.mp fails with ⟨inner, innerFails, rfl⟩
  have stays : inner.stop = start := by
    rcases fails_bind_iff.mp innerFails with fails | ⟨_, _, _, fails⟩
    · exact stop_of_fails_oneOf fails
    · exact absurd (fails_bind_pure_iff.mp fails) not_fails_takeWhile
  exact stays

theorem not_aborts_identifier {start : Cursor} {failure : Failure} :
    ¬ identifier.Aborts start failure := by
  intro aborts
  rcases aborts_within_iff.mp aborts with ⟨inner, innerAborts, _⟩
  rcases aborts_bind_iff.mp innerAborts with aborts | ⟨_, _, _, aborts⟩
  · exact not_aborts_oneOf aborts
  · exact not_fails_takeWhile (fails_bind_pure_iff.mp aborts.fails)

/-- What follows the first identifier of a path can always be left away. -/
theorem not_fails_many_pathStep {start : Cursor} {failure : Failure} :
    ¬ (Parser.many pathStep).Fails start failure := by
  intro fails
  refine many_fails_induction (motive := fun _ _ => False) ?_ ?_ ?_ start fails
  · intro start failure aborts
    rcases aborts_bind_iff.mp aborts with aborts | ⟨_, _, _, aborts⟩
    · exact not_aborts_character aborts
    · exact not_aborts_identifier aborts
  · intro start middle _ _ equal stays _
    exact stays ((done_pathStep_iff.mp equal).2.moves (List.cons_ne_nil _ _))
  · intro _ _ _ _ _ _ impossible
    exact impossible

theorem stop_of_fails_typeName {start : Cursor} {failure : Failure}
    (fails : typeName.Fails start failure) : failure.stop = start := by
  rcases fails_within_iff.mp fails with ⟨inner, innerFails, rfl⟩
  have stays : inner.stop = start := by
    rcases fails_bind_iff.mp innerFails with fails | ⟨_, middle, _, fails⟩
    · exact stop_of_fails_identifier fails
    · exact absurd (fails_bind_pure_iff.mp fails) not_fails_many_pathStep
  exact stays

theorem fails_named_iff {parser : Parser (List Char)} {start : Cursor} {failure : Failure} :
    (named parser).Fails start failure ↔ parser.Fails start failure :=
  fails_bind_pure_iff

/-! ## Completable parsers -/

/-- A viable parser for something that has texts at every place. -/
structure Completable (parser : Parser α) (spelling : Spelling) : Prop where
  viable : parser.Viable spelling
  possible : spelling.Possible

namespace Completable

section Wrapped

variable {parser : Parser α} {spelling : Spelling} (completable : parser.Completable spelling)

include completable

theorem mono {wider : Spelling} (within : spelling.Within wider) : parser.Completable wider where
  viable := completable.viable.mono within
  possible := completable.possible.mono within

theorem commit : (commit parser).Completable spelling where
  viable := completable.viable.commit
  possible := completable.possible

theorem within (construct : Construct) : (within construct parser).Completable spelling where
  viable := completable.viable.within construct
  possible := completable.possible

theorem bind_pure (change : α → β) :
    (parser >>= fun value => pure (change value)).Completable spelling where
  viable := completable.viable.bind_pure change
  possible := completable.possible

theorem bind {next : α → Parser β} {back : Spelling} (readsAs : parser.ReadsAs spelling)
    (nextCompletable : ∀ value, (next value).Completable back) (detached : back.Detached) :
    (parser >>= next).Completable (spelling ++ back) where
  viable := .bind readsAs completable.viable (fun value => (nextCompletable value).viable)
    (detached.continues spelling)
  possible := completable.possible.append_detached detached

end Wrapped

theorem of_assoc {first : Parser α} {next : α → Parser β} {last : β → Parser γ}
    {spelling : Spelling}
    (completable : (first >>= fun value => next value >>= last).Completable spelling) :
    (first >>= next >>= last).Completable spelling where
  viable start failure fails := by
    apply completable.viable
    rwa [Fails, ← run_bind_assoc]
  possible := completable.possible

theorem orElse {first second : Parser α} {spelling : Spelling}
    (firstCompletable : first.Completable spelling)
    (secondCompletable : second.Completable spelling) :
    (first <|> second).Completable spelling where
  viable := firstCompletable.viable.orElse secondCompletable.viable
  possible := firstCompletable.possible

/-! ### Trivia and signs -/

section InFront

variable {next : Parser α} {back : Spelling} (completable : next.Completable back)

include completable

theorem trivia_bind : (trivia >>= fun _ => next).Completable (Grammar.trivia ++ back) where
  viable start failure fails := by
    rcases fails_bind_iff.mp fails with fails | ⟨_, middle, equal, fails⟩
    · exact (viable_trivia fails).append_right
        (Grammar.punctuated_trivia.continues completable.possible)
    · exact begins_behind_trivia equal (completable.viable fails) completable.possible
  possible := (Grammar.detached_trivia_append completable.possible).possible

theorem gap_bind : (gap >>= fun _ => next).Completable (Grammar.gap ++ back) where
  viable start failure fails := by
    rcases fails_bind_iff.mp fails with fails | ⟨_, middle, equal, fails⟩
    · exact (viable_gap fails).append_right
        (Grammar.punctuated_gap.continues completable.possible)
    · exact begins_behind_gap equal (completable.viable fails) completable.possible
  possible := (Grammar.detached_gap_append completable.possible).possible

theorem sign_bind (sign : Char) (notWord : isWordCharacter sign = false) :
    (character sign >>= fun _ => next).Completable (Grammar.sign sign ++ back) where
  viable := .bind (fun _ _ _ equal => (done_character_iff_spells notWord).mp equal)
    (.of_stop (fun _ _ => stop_of_fails_character) _) (fun _ => completable.viable)
    ((Spelling.punctuated_exactly (by simp [notWord])).continues completable.possible)
  possible := (Grammar.detached_sign_append notWord completable.possible).possible

theorem exactly_bind (text : List Char)
    (punctuated : text.getLast?.any isWordCharacter = false) :
    (exactly text >>= fun _ => next).Completable (.exactly text ++ back) where
  viable := .bind (fun _ _ _ equal => (done_exactly_iff.mp equal).spells punctuated)
    (.of_stop (fun _ _ => stop_of_fails_exactly) _) (fun _ => completable.viable)
    ((Spelling.punctuated_exactly punctuated).continues completable.possible)
  possible := (Spelling.possible_exactly text).append
    ((Spelling.punctuated_exactly punctuated).continues completable.possible)

/-- What follows a keyword has to begin with no word, and a gap does not. -/
theorem keyword_bind (word : String)
    (ends : word.toList.getLast?.any isWordCharacter = true) (detached : back.Detached) :
    (keyword word >>= fun _ => next).Completable (Grammar.word word ++ back) where
  viable := .bind (fun _ _ _ equal => (done_keyword_iff ends).mp equal) (viable_keyword word)
    (fun _ => completable.viable) (detached.continues _)
  possible := (Spelling.possible_exactly _).append_detached detached

theorem signBetween_bind (sign : Char) (notWord : isWordCharacter sign = false) :
    (signBetween sign >>= fun _ => next).Completable (Grammar.between sign ++ back) := by
  rw [Grammar.between, Spelling.append_assoc, Spelling.append_assoc]
  exact (completable.trivia_bind.sign_bind sign notWord).of_assoc.trivia_bind.of_assoc

end InFront

theorem character (sign : Char) : (character sign).Completable (Grammar.sign sign) where
  viable := .of_stop (fun _ _ => stop_of_fails_character) _
  possible := Spelling.possible_exactly _

theorem named_identifier : (named identifier).Completable Grammar.anyIdentifier where
  viable := .of_stop (fun _ _ fails => stop_of_fails_identifier (fails_named_iff.mp fails)) _
  possible := Grammar.possible_anyIdentifier

theorem named_typeName : (named typeName).Completable Grammar.anyPath where
  viable := .of_stop (fun _ _ fails => stop_of_fails_typeName (fails_named_iff.mp fails)) _
  possible := Grammar.possible_anyPath

end Completable

theorem readsAs_named_identifier : (named identifier).ReadsAs Grammar.anyIdentifier :=
  fun _ _ _ equal => Cursor.spells_anyOf_iff.mpr ⟨_, done_named_identifier_iff.mp equal⟩

theorem readsAs_named_typeName : (named typeName).ReadsAs Grammar.anyPath :=
  fun _ _ _ equal => Cursor.spells_anyOf_iff.mpr ⟨_, of_done_named_typeName equal⟩

/-! ## Lists -/

section Separated

variable {separator : Parser Unit} {member : Parser α} {between : Spelling} {holds : α → Prop}
  {spelling : α → Spelling}

theorem separated_of_repeated :
    (anyOf holds spelling ++ .repeated (between ++ anyOf holds spelling)).Within
      (anyOf (fun values => values ≠ [] ∧ ∀ value ∈ values, holds value)
        (.separated between spelling)) := by
  have isNext := Spelling.append_anyOf_within holds between spelling
  apply Spelling.Within.of_spells
  intro start stop spells
  rcases Cursor.spells_append_iff.mp spells with ⟨_, firstSpells, moreSpells⟩
  rcases Cursor.spells_anyOf_iff.mp firstSpells with ⟨first, firstHolds, firstSpells⟩
  rcases Cursor.spells_anyOf_iff.mp (moreSpells.mono (Spelling.each_of_repeated isNext)) with
    ⟨more, moreHold, moreSpells⟩
  exact Cursor.spells_anyOf_iff.mpr ⟨first :: more,
    ⟨List.cons_ne_nil first more, List.forall_mem_cons.mpr ⟨firstHolds, moreHold⟩⟩,
    firstSpells.append moreSpells⟩

theorem readsAs_separated (isSeparator : IsSeparator separator between)
    (sound : ∀ ⦃value start stop⦄, member.run start = .done value stop →
      holds value ∧ start.Spells (spelling value) stop ∧ Solid start.rest) :
    (separated separator member).ReadsAs
      (anyOf (fun values => values ≠ [] ∧ ∀ value ∈ values, holds value)
        (.separated between spelling)) := by
  intro values start stop equal
  rcases of_done_separated isSeparator holds spelling sound equal with ⟨notNil, all, spells, _⟩
  exact Cursor.spells_anyOf_iff.mpr ⟨values, ⟨notNil, all⟩, spells⟩

theorem Completable.separated (isSeparator : IsSeparator separator between)
    (sound : ∀ ⦃value start stop⦄, member.run start = .done value stop →
      holds value ∧ start.Spells (spelling value) stop ∧ Solid start.rest)
    (completable : member.Completable (anyOf holds spelling))
    (nextCompletable :
      (separator >>= fun _ => member).Completable (between ++ anyOf holds spelling)) :
    (separated separator member).Completable
      (anyOf (fun values => values ≠ [] ∧ ∀ value ∈ values, holds value)
        (.separated between spelling)) := by
  have readsAs : member.ReadsAs (anyOf holds spelling) := by
    intro value start stop equal
    rcases sound equal with ⟨valueHolds, spells, _⟩
    exact Cursor.spells_anyOf_iff.mpr ⟨value, valueHolds, spells⟩
  have nextReadsAs : (separator >>= fun _ => member).ReadsAs (between ++ anyOf holds spelling) := by
    intro value start stop equal
    rcases done_bind_iff.mp equal with ⟨_, _, separatorEqual, valueEqual⟩
    rcases sound valueEqual with ⟨_, _, solid⟩
    exact (isSeparator.spells separatorEqual solid).append (readsAs valueEqual)
  have more (first : α) : (many (separator >>= fun _ => member) >>= fun more =>
      pure (first :: more)).Completable (.repeated (between ++ anyOf holds spelling)) :=
    { viable := (Viable.many nextReadsAs nextCompletable.viable).bind_pure (first :: ·)
      possible := (Spelling.detached_repeated _).possible }
  exact (completable.bind readsAs more (Spelling.detached_repeated _)).mono separated_of_repeated

end Separated

theorem Completable.entries_bind {entry : Parser α} {spelling back : Spelling}
    {next : List α → Parser β} (readsAs : entry.ReadsAs spelling)
    (completable : entry.Completable spelling)
    (nextCompletable : ∀ values, (next values).Completable back) (detached : back.Detached) :
    (entries entry >>= next).Completable (.repeated (spelling ++ Grammar.trivia) ++ back) := by
  have detachedMore := (Spelling.detached_repeated (spelling ++ Grammar.trivia)).append detached
  refine ⟨?_, detachedMore.possible⟩
  have detachedBehind := Grammar.detached_trivia_append detachedMore.possible
  have step : (entry >>= fun value => trivia >>= fun _ => pure value).Viable
      (spelling ++ Grammar.trivia) :=
    .bind readsAs completable.viable (fun value => viable_trivia.bind_pure fun _ => value)
      (Grammar.detached_trivia.continues _)
  intro start failure fails
  -- What follows takes all values, so it changes with each of them and is generalised as well.
  induction bound : start.rest.length using Nat.strongRecOn generalizing start next with
  | ind size induction =>
      rw [Fails, entries, run_many_bind] at fails
      cases equal : (entry >>= fun value => trivia >>= fun _ => pure value).run start with
      | rejected other =>
          simp only [equal] at fails
          refine ((nextCompletable []).viable fails).mono fun offset text spelled => ?_
          exact ⟨[], text, rfl, .nil_left text, ⟨[], rfl⟩, spelled⟩
      | aborted other =>
          simp only [equal, reduceCtorEq, Reply.aborted.injEq, false_or] at fails
          subst fails
          exact ((step (.inr equal)).mono (Spelling.repeated_of_once _)).append_right
            (detached.continues _)
      | done value middle =>
          by_cases moved : start.offset < middle.offset
          · simp only [equal, moved, if_true] at fails
            have shorter := (reaches_of_done equal).length_lt moved
            -- The failure lies behind this entry, where what has been read can be completed.
            have later := induction middle.rest.length (bound ▸ shorter)
              (fun values => nextCompletable (value :: values)) fails rfl
            rcases done_bind_iff.mp equal with ⟨_, behind, entryEqual, equal⟩
            rcases done_bind_iff.mp equal with ⟨_, _, triviaEqual, result⟩
            rcases done_pure_iff.mp result with ⟨rfl, rfl⟩
            have whole := Cursor.Begins.append (readsAs entryEqual)
              (begins_behind_trivia triviaEqual later detachedMore.possible)
              (detachedBehind.continues _)
            rw [← Spelling.append_assoc, ← Spelling.append_assoc] at whole
            refine whole.mono fun offset text spelled => ?_
            rcases spelled with ⟨first, second, textEqual, apart, front, back⟩
            exact ⟨first, second, textEqual, apart, Spelling.repeated_of_append _ front, back⟩
          · simp only [equal, moved, if_false, Reply.rejected.injEq, reduceCtorEq, or_false]
              at fails
            rw [← fails]
            exact .refl start _

end Parser
end PermissionTypes.Schema
