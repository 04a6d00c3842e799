import PermissionTypes.Proofs.Schema.FailureReasons

/-! Where trivia ends. It is skipped piece by piece, up to the first place where none begins, and
the only texts in which there is no such place are those with a block comment that is never
closed. -/

namespace PermissionTypes.Schema

open Schema.Parser

namespace Trivia

/-! ## What can be skipped -/

/-- One blank or one comment, and what follows it. A line comment lasts until its line ends or the
whole text does, and a block comment until it is closed for the first time. -/
inductive SkipsPiece : List Char → List Char → Prop
  | blank {character : Char} {rest : List Char} (blank : isBlank character = true) :
      SkipsPiece [character] rest
  | lineComment {comment rest : List Char}
      (inLine : ∀ character ∈ comment, isLineEnd character = false)
      (ends : ∀ next ∈ rest.head?, isLineEnd next = true) :
      SkipsPiece ('/' :: '/' :: comment) rest
  | blockComment {comment rest : List Char} (inside : ¬ ['*', '/'] <:+: comment) :
      SkipsPiece ('/' :: '*' :: (comment ++ ['*', '/'])) rest

inductive SkipsText : List Char → List Char → Prop
  | nil {rest : List Char} : SkipsText [] rest
  | cons {piece more rest : List Char} (first : SkipsPiece piece (more ++ rest))
      (goesOn : SkipsText more rest) : SkipsText (piece ++ more) rest

theorem SkipsText.append {front back rest : List Char} (first : SkipsText front (back ++ rest))
    (second : SkipsText back rest) : SkipsText (front ++ back) rest := by
  generalize behind : back ++ rest = text at first
  induction first with
  | nil => exact second
  | cons piece _ induction =>
      rw [← behind, ← List.append_assoc] at piece
      rw [List.append_assoc]
      exact .cons piece (induction behind)

end Trivia

open Trivia

def Cursor.Skips (start stop : Cursor) : Prop :=
  ∃ text, start.Reads text stop ∧ SkipsText text stop.rest

namespace Cursor.Skips

theorem refl (cursor : Cursor) : cursor.Skips cursor :=
  ⟨[], .refl cursor, .nil⟩

theorem trans {start middle stop : Cursor} (first : start.Skips middle)
    (second : middle.Skips stop) : start.Skips stop := by
  rcases first with ⟨front, frontReads, frontSkipped⟩
  rcases second with ⟨back, backReads, backSkipped⟩
  rw [backReads.rest_eq] at frontSkipped
  exact ⟨front ++ back, frontReads.trans backReads, frontSkipped.append backSkipped⟩

theorem piece {start stop : Cursor} {text : List Char} (reads : start.Reads text stop)
    (skipped : SkipsPiece text stop.rest) : start.Skips stop := by
  have whole : SkipsText (text ++ []) stop.rest := .cons skipped .nil
  rw [List.append_nil] at whole
  exact ⟨text, reads, whole⟩

theorem blanks {start stop : Cursor} {text : List Char} (reads : start.Reads text stop)
    (blank : ∀ character ∈ text, isBlank character = true) : start.Skips stop := by
  induction text generalizing start with
  | nil =>
      rw [← Cursor.reads_nil_iff.mp reads]
      exact .refl stop
  | cons character text induction =>
      rw [← List.singleton_append, Cursor.reads_append_iff] at reads
      rcases reads with ⟨middle, readsHere, readsBehind⟩
      rcases List.forall_mem_cons.mp blank with ⟨blankHere, blankBehind⟩
      have here : start.Skips middle := .piece readsHere (.blank blankHere)
      exact here.trans (induction readsBehind blankBehind)

end Cursor.Skips

namespace Trivia

/-! ## Comments that are never closed -/

theorem splitComment_eq_none_iff {text : List Char} :
    splitComment text = none ↔ ¬ ['*', '/'] <:+: text := by
  induction text with
  | nil => simp [splitComment]
  | cons character text induction =>
      rw [splitComment, List.infix_cons_iff, not_or, ← induction, ← List.isPrefixOf_iff_prefix]
      split
      · rename_i closes
        simp [closes]
      · rename_i goesOn
        cases splitComment text <;> simp [goesOn]

/-- A block comment opens at the first cursor, and the second one is behind its opening. It is not
closed from there on. -/
structure OpensForGood (opening behind : Cursor) : Prop where
  opens : opening.Reads ['/', '*'] behind
  stays : ¬ ['*', '/'] <:+: behind.rest

def unclosed (behind : Cursor) : Failure where
  stop := behind
  expectation := .construct
  within := [.blockComment]

theorem aborts_restOfBlockComment_iff {start : Cursor} {failure : Failure} :
    (commit (within .blockComment restOfBlockComment)).Aborts start failure ↔
      ¬ ['*', '/'] <:+: start.rest ∧ failure = unclosed start := by
  rw [← splitComment_eq_none_iff]
  cases split : splitComment start.rest with
  | none =>
      simp [Aborts, commit, within, restOfBlockComment, split, unclosed, Reply.mapFailure,
        Failure.enclosedBy, eq_comm]
  | some parts =>
      simp [Aborts, commit, within, restOfBlockComment, split, Reply.mapFailure]

theorem aborts_blockComment_iff {start : Cursor} {failure : Failure} :
    blockComment.Aborts start failure ↔
      ∃ behind, OpensForGood start behind ∧ failure = unclosed behind := by
  rw [blockComment, aborts_bind_iff]
  constructor
  · intro aborts
    rcases aborts with impossible | ⟨_, behind, opening, aborts⟩
    · exact absurd impossible not_aborts_exactly
    · rcases aborts_restOfBlockComment_iff.mp aborts with ⟨stays, equal⟩
      exact ⟨behind, ⟨done_exactly_iff.mp opening, stays⟩, equal⟩
  · rintro ⟨behind, comment, equal⟩
    have aborts := aborts_restOfBlockComment_iff.mpr ⟨comment.stays, equal⟩
    exact .inr ⟨(), behind, run_exactly comment.opens, aborts⟩

theorem aborts_piece_iff {start : Cursor} {failure : Failure} :
    piece.Aborts start failure ↔
      ∃ behind, OpensForGood start behind ∧ failure = unclosed behind := by
  rw [← aborts_blockComment_iff]
  constructor
  · exact aborts_blockComment_of_aborts_piece
  · intro aborts
    rcases aborts_blockComment_iff.mp aborts with ⟨behind, comment, _⟩
    rwa [Aborts, run_piece_of_opening comment.opens]

/-! ## One piece -/

/-- A line comment of the grammar is skipped together with the end of its line. -/
theorem skips_of_isPiece {start stop : Cursor} {text : List Char} (reads : start.Reads text stop)
    (isPiece : Grammar.IsPiece text) : start.Skips stop := by
  cases isPiece with
  | blank blank => exact .piece reads (.blank blank)
  | @lineComment comment lineEnd inLine ends =>
      rw [← List.cons_append, ← List.cons_append, Cursor.reads_append_iff] at reads
      rcases reads with ⟨middle, commentReads, lineEndReads⟩
      have comment : start.Skips middle := by
        apply Cursor.Skips.piece commentReads
        apply SkipsPiece.lineComment inLine
        rw [lineEndReads.rest_eq]
        rintro _ ⟨rfl⟩
        exact ends
      have lineEnd : middle.Skips stop :=
        .piece lineEndReads (.blank (isBlank_of_isLineEnd ends))
      exact comment.trans lineEnd
  | blockComment inside => exact .piece reads (.blockComment inside)

theorem skips_of_done_piece {start stop : Cursor} (equal : piece.run start = .done () stop) :
    start.Skips stop := by
  rcases of_done_piece equal with ⟨text, _, reads, kind⟩
  rcases kind with blank | ⟨comment, rfl, inLine, ends⟩ | isPiece
  · exact .blanks reads blank
  · exact .piece reads (.lineComment inLine ends)
  · exact skips_of_isPiece reads isPiece

end Trivia

/-! ## All pieces -/

theorem run_trivia_of_skips {start stop : Cursor} (skips : start.Skips stop) :
    trivia.run start = trivia.run stop := by
  rcases skips with ⟨text, reads, skipped⟩
  generalize restEqual : stop.rest = rest at skipped
  induction skipped generalizing start with
  | nil => rw [Cursor.reads_nil_iff.mp reads]
  | cons first _ induction =>
      rcases Cursor.reads_append_iff.mp reads with ⟨middle, readsFirst, readsMore⟩
      rw [← induction readsMore restEqual]
      rw [← restEqual, ← readsMore.rest_eq] at first
      cases first with
      | blank blank => exact run_trivia_of_blank readsFirst blank
      | lineComment inLine ends =>
          exact run_trivia_of_piece (run_lineComment readsFirst inLine ends)
      | blockComment inside => exact run_trivia_of_piece (run_blockComment readsFirst inside)

theorem skips_of_done_trivia {start stop : Cursor} (equal : trivia.run start = .done () stop) :
    start.Skips stop := by
  rcases done_bind_iff.mp equal with ⟨_, _, pieces, done⟩
  rcases done_pure_iff.mp done with ⟨_, rfl⟩
  apply many_induction (motive := fun start _ stop => start.Skips stop) ?_ ?_ start pieces
  · intro cursor _
    exact .refl cursor
  · intro start middle stop _ _ first _ _ more
    exact (skips_of_done_piece first).trans more

theorem done_trivia_iff {start stop : Cursor} :
    trivia.run start = .done () stop ↔ start.Skips stop ∧ Absent stop.rest := by
  constructor
  · intro equal
    exact ⟨skips_of_done_trivia equal, (of_done_trivia equal).1⟩
  · rintro ⟨skips, absent⟩
    exact (run_trivia_of_skips skips).trans (run_trivia_of_absent absent)

theorem aborts_trivia_iff {start : Cursor} {failure : Failure} :
    trivia.Aborts start failure ↔ ∃ opening behind,
      start.Skips opening ∧ OpensForGood opening behind ∧ failure = unclosed behind := by
  constructor
  · intro aborts
    have fails := fails_bind_pure_iff.mp aborts.fails
    apply many_fails_induction (motive := fun start failure => ∃ opening behind,
      start.Skips opening ∧ OpensForGood opening behind ∧ failure = unclosed behind)
      ?_ ?_ ?_ start fails
    · intro start failure aborts
      rcases aborts_piece_iff.mp aborts with ⟨behind, comment, equal⟩
      exact ⟨start, behind, .refl start, comment, equal⟩
    · intro start middle _ failure equal stays _
      exact absurd (advances_piece.moves equal) stays
    · intro start middle _ failure equal _ later
      rcases later with ⟨opening, behind, skips, comment, failureEqual⟩
      exact ⟨opening, behind, (skips_of_done_piece equal).trans skips, comment, failureEqual⟩
  · rintro ⟨opening, behind, skips, comment, equal⟩
    have pieceAborts : Trivia.piece.Aborts opening failure :=
      aborts_piece_iff.mpr ⟨behind, comment, equal⟩
    have manyAborts : (many Trivia.piece).Aborts opening failure := by
      rw [Aborts, run_many, pieceAborts]
    rw [Aborts, run_trivia_of_skips skips]
    exact aborts_bind_iff.mpr (.inl manyAborts)

/-- Trivia is skipped up to the only place behind blanks and whole comments where no trivia begins.
There is no such place exactly if a block comment is never closed, and then the whole text is wrong
behind the opening of this comment. From wherever one has come to by skipping blanks and whole
comments, the reply is the same, so no comment is left half-read and nothing is skipped by a second
attempt. -/
theorem trivia_ends_where_absent (start : Cursor) :
    (∀ stop, trivia.run start = .done () stop ↔ start.Skips stop ∧ Absent stop.rest) ∧
    (∀ stop other, start.Skips stop ∧ Absent stop.rest → start.Skips other ∧ Absent other.rest →
      stop = other) ∧
    (∀ failure, trivia.Aborts start failure ↔ ∃ opening behind,
      start.Skips opening ∧ OpensForGood opening behind ∧ failure = unclosed behind) ∧
    ¬ trivia.Rejects start ∧
    (∀ middle, start.Skips middle → trivia.run start = trivia.run middle) ∧
    (trivia >>= fun _ => trivia).run start = trivia.run start := by
  refine ⟨?_, ?_, ?_, ?_, ?_, ?_⟩
  · intro stop
    exact done_trivia_iff
  · intro stop other stopEnds otherEnds
    have equal := done_trivia_iff.mpr stopEnds
    rw [done_trivia_iff.mpr otherEnds] at equal
    cases equal
    rfl
  · intro failure
    exact aborts_trivia_iff
  · exact not_rejects_trivia
  · intro middle skips
    exact run_trivia_of_skips skips
  · cases equal : trivia.run start with
    | done value stop =>
        have skips := skips_of_done_trivia equal
        rw [run_bind_of_done equal, ← run_trivia_of_skips skips, equal]
    | rejected failure => exact absurd ⟨failure, equal⟩ not_rejects_trivia
    | aborted failure => rw [run_bind, equal]

/-- A line comment may hold the opening of another one and be ended by a carriage return alone. The
slash of an opening does not close the comment. -/
example : trivia.run (.ofText "//a/*\r/*/b*/c".toList) =
    .done () { offset := 12, rest := ['c'] } := by
  with_unfolding_all rfl

end PermissionTypes.Schema
