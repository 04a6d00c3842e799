import PermissionTypes.Proofs.Schema.Grammar
import PermissionTypes.Proofs.Schema.Running

/-! Trivia is read as far as it goes. The texts that are read are those of the grammar, except that
a line comment at the end of the whole text may lack the end of its line. -/

namespace PermissionTypes.Schema

open Schema.Parser
open Grammar (IsPiece IsTrivia IsOpenComment)

namespace Trivia

def Absent (rest : List Char) : Prop :=
  (∀ next ∈ rest.head?, isBlank next = false) ∧
    ¬ ['/', '/'] <+: rest ∧ ¬ ['/', '*'] <+: rest

theorem absent_nil : Absent [] := by
  simp [Absent]

theorem Absent.of_head {next : Char} {rest : List Char} (notBlank : isBlank next = false)
    (notSlash : next ≠ '/') : Absent (next :: rest) := by
  refine ⟨?_, ?_, ?_⟩
  · rintro found ⟨rfl⟩
    exact notBlank
  · intro comment
    exact notSlash (List.cons_prefix_cons.mp comment).1.symm
  · intro comment
    exact notSlash (List.cons_prefix_cons.mp comment).1.symm

/-! ## Texts of the grammar -/

theorem isBlank_of_isLineEnd {character : Char} (ends : isLineEnd character = true) :
    isBlank character = true := by
  simp only [isLineEnd, Bool.or_eq_true, beq_iff_eq] at ends
  rcases ends with rfl | rfl <;> decide

theorem isWordCharacter_of_isBlank {character : Char} (blank : isBlank character = true) :
    isWordCharacter character = false := by
  simp only [isBlank, Bool.or_eq_true, beq_iff_eq] at blank
  rcases blank with ((rfl | rfl) | rfl) | rfl <;> decide

theorem head_of_isPiece {piece : List Char} (isPiece : IsPiece piece) :
    ∃ first more, piece = first :: more ∧ (isBlank first = true ∨ first = '/') := by
  cases isPiece with
  | blank blank => exact ⟨_, _, rfl, .inl blank⟩
  | lineComment _ _ => exact ⟨_, _, rfl, .inr rfl⟩
  | blockComment _ => exact ⟨_, _, rfl, .inr rfl⟩

theorem last_of_isPiece {piece : List Char} (isPiece : IsPiece piece) :
    ∀ last ∈ piece.getLast?, isWordCharacter last = false := by
  cases isPiece with
  | blank blank =>
      rintro last ⟨rfl⟩
      exact isWordCharacter_of_isBlank blank
  | @lineComment comment lineEnd inLine ends =>
      rw [← List.cons_append, ← List.cons_append, List.getLast?_concat]
      rintro last ⟨rfl⟩
      exact isWordCharacter_of_isBlank (isBlank_of_isLineEnd ends)
  | @blockComment comment inside =>
      rw [← List.cons_append, ← List.cons_append, List.getLast?_append]
      rintro last ⟨rfl⟩
      decide

theorem head_of_isTrivia {text : List Char} (isTrivia : IsTrivia text) (notNil : text ≠ []) :
    ∃ first more, text = first :: more ∧ (isBlank first = true ∨ first = '/') := by
  cases isTrivia with
  | nil => exact absurd rfl notNil
  | cons isPiece _ =>
      rcases head_of_isPiece isPiece with ⟨first, more, rfl, starts⟩
      exact ⟨first, _, rfl, starts⟩

theorem head_of_isTrivia_append {skipped : List Char} (isTrivia : IsTrivia skipped)
    (rest : List Char) :
    ∀ next ∈ (skipped ++ rest).head?, isBlank next = true ∨ next = '/' ∨ next ∈ rest.head? := by
  by_cases none : skipped = []
  · subst none
    exact fun next member => .inr (.inr member)
  · rcases head_of_isTrivia isTrivia none with ⟨first, more, rfl, starts⟩
    rintro next ⟨rfl⟩
    exact starts.imp_right .inl

theorem last_of_isTrivia {text : List Char} (isTrivia : IsTrivia text) :
    ∀ last ∈ text.getLast?, isWordCharacter last = false := by
  induction isTrivia with
  | nil =>
      intro last member
      cases member
  | @cons piece more isPiece isTrivia induction =>
      intro last member
      rw [List.getLast?_append, Option.mem_def, Option.or_eq_some_iff] at member
      rcases member with member | ⟨_, member⟩
      · exact induction last member
      · exact last_of_isPiece isPiece last member

theorem isTrivia_append {front back : List Char} (first : IsTrivia front)
    (second : IsTrivia back) : IsTrivia (front ++ back) := by
  induction first with
  | nil => exact second
  | cons isPiece _ induction =>
      rw [List.append_assoc]
      exact .cons isPiece induction

theorem isTrivia_of_piece {piece : List Char} (isPiece : IsPiece piece) : IsTrivia piece := by
  rw [← List.append_nil piece]
  exact .cons isPiece .nil

theorem isTrivia_of_blanks {text : List Char}
    (blank : ∀ character ∈ text, isBlank character = true) : IsTrivia text := by
  induction text with
  | nil => exact .nil
  | cons character text induction =>
      have first : IsPiece [character] := .blank (blank character (List.mem_cons_self ..))
      exact .cons first (induction fun next member => blank next (List.mem_cons_of_mem _ member))

theorem isTrivia_of_lineEnd_cons {lineEnd : Char} {more : List Char}
    (ends : isLineEnd lineEnd = true) (isTrivia : IsTrivia (lineEnd :: more)) :
    IsTrivia more := by
  have notSlash : lineEnd ≠ '/' := by
    rintro rfl
    cases ends
  generalize whole : lineEnd :: more = text at isTrivia
  cases isTrivia with
  | nil => cases whole
  | cons isPiece isTrivia =>
      cases isPiece with
      | blank _ =>
          cases whole
          exact isTrivia
      | lineComment _ _ =>
          cases whole
          exact absurd rfl notSlash
      | blockComment _ =>
          cases whole
          exact absurd rfl notSlash

/-! ## Block comments -/

theorem splitComment_append {comment : List Char} (inside : ¬ ['*', '/'] <:+: comment)
    (rest : List Char) :
    splitComment (comment ++ ['*', '/'] ++ rest) = some (comment ++ ['*', '/'], rest) := by
  induction comment with
  | nil => rfl
  | cons character comment induction =>
      rw [List.infix_cons_iff, not_or] at inside
      have notHere : ¬ ['*', '/'] <+: (character :: comment) ++ ['*', '/'] ++ rest := by
        intro here
        cases comment with
        | nil => simp at here
        | cons next comment => exact inside.1 (by simpa using here)
      have notPrefix : ['*', '/'].isPrefixOf ((character :: comment) ++ ['*', '/'] ++ rest) =
          false := by
        rwa [Bool.eq_false_iff, ne_eq, List.isPrefixOf_iff_prefix]
      simp only [List.cons_append] at notPrefix ⊢
      rw [splitComment, notPrefix, induction inside.2]
      rfl

theorem of_splitComment {text comment rest : List Char}
    (equal : splitComment text = some (comment, rest)) :
    ∃ inside, comment = inside ++ ['*', '/'] ∧ ¬ ['*', '/'] <:+: inside := by
  induction text generalizing comment rest with
  | nil => cases equal
  | cons character text induction =>
      rw [splitComment] at equal
      split at equal
      · cases equal
        exact ⟨[], rfl, by simp⟩
      · rename_i notHere
        split at equal
        · rename_i inner innerRest innerEqual
          cases equal
          rcases induction innerEqual with ⟨inside, rfl, closed⟩
          refine ⟨character :: inside, rfl, ?_⟩
          rw [List.infix_cons_iff, not_or]
          refine ⟨?_, closed⟩
          intro here
          rw [List.isPrefixOf_iff_prefix, append_of_splitComment innerEqual] at notHere
          exact notHere (here.trans ⟨['*', '/'] ++ rest, by simp⟩)
        · cases equal

/-! ## One piece -/

theorem run_blanks {start stop : Cursor} {text : List Char} (notNil : text ≠ [])
    (reads : start.Reads text stop) (blank : ∀ character ∈ text, isBlank character = true)
    (ends : ∀ next ∈ stop.rest.head?, isBlank next = false) :
    blanks.run start = .done () stop := by
  cases text with
  | nil => exact absurd rfl notNil
  | cons character text =>
      rw [← List.singleton_append, Cursor.reads_append_iff] at reads
      rcases reads with ⟨middle, first, more⟩
      refine done_bind_iff.mpr ⟨character, middle, done_oneOf_iff.mpr ⟨?_, first⟩, ?_⟩
      · exact blank character (List.mem_cons_self ..)
      · refine done_bind_iff.mpr ⟨text, stop, done_takeWhile_iff.mpr ⟨more, ?_, ends⟩, rfl⟩
        exact fun next member => blank next (List.mem_cons_of_mem _ member)

theorem run_lineComment {start stop : Cursor} {comment : List Char}
    (reads : start.Reads ('/' :: '/' :: comment) stop)
    (inLine : ∀ character ∈ comment, isLineEnd character = false)
    (ends : ∀ next ∈ stop.rest.head?, isLineEnd next = true) :
    piece.run start = .done () stop := by
  have slash : start.rest.head? = some '/' := by
    rw [reads.rest_eq]
    rfl
  have noBlanks : blanks.Rejects start := by
    apply Rejects.bind_left
    apply rejects_oneOf_iff.mpr
    rw [slash]
    rintro next ⟨rfl⟩
    rfl
  refine (run_orElse_of_rejects noBlanks _).trans ?_
  have cut : '/' :: '/' :: comment = ['/', '/'] ++ comment := rfl
  rw [cut, Cursor.reads_append_iff] at reads
  rcases reads with ⟨middle, opening, more⟩
  refine done_orElse_iff.mpr (.inl ?_)
  refine done_bind_iff.mpr ⟨(), middle, done_exactly_iff.mpr opening, ?_⟩
  refine done_bind_iff.mpr ⟨comment, stop, done_takeWhile_iff.mpr ⟨more, ?_, ?_⟩, rfl⟩
  · intro character member
    simp [inLine character member]
  · intro next member
    simp [ends next member]

/-- What begins like a block comment is read as one or not at all. -/
theorem run_piece_of_opening {start middle : Cursor} (opening : start.Reads ['/', '*'] middle) :
    piece.run start = blockComment.run start := by
  have noBlanks : blanks.Rejects start := by
    apply Rejects.bind_left
    apply rejects_oneOf_iff.mpr
    rw [opening.rest_eq]
    rintro next ⟨rfl⟩
    rfl
  have noLineComment : lineComment.Rejects start := by
    apply Rejects.bind_left
    apply rejects_exactly_iff.mpr
    rw [opening.rest_eq]
    simp
  exact (run_orElse_of_rejects noBlanks _).trans (run_orElse_of_rejects noLineComment _)

theorem run_blockComment {start stop : Cursor} {comment : List Char}
    (reads : start.Reads ('/' :: '*' :: (comment ++ ['*', '/'])) stop)
    (inside : ¬ ['*', '/'] <:+: comment) : piece.run start = .done () stop := by
  have cut : '/' :: '*' :: (comment ++ ['*', '/']) = ['/', '*'] ++ (comment ++ ['*', '/']) := rfl
  rw [cut, Cursor.reads_append_iff] at reads
  rcases reads with ⟨middle, opening, more⟩
  rw [run_piece_of_opening opening]
  refine done_bind_iff.mpr ⟨(), middle, done_exactly_iff.mpr opening, ?_⟩
  rw [done_commit_iff, done_within_iff]
  have split : splitComment middle.rest = some (comment ++ ['*', '/'], stop.rest) := by
    rw [more.rest_eq]
    exact splitComment_append inside stop.rest
  rcases Cursor.reads_iff_advance.mp more with ⟨rest, restEqual, rfl⟩
  simp only [restOfBlockComment, split]
  rfl

theorem rejects_piece {start : Cursor} (absent : Absent start.rest) : piece.Rejects start := by
  apply Rejects.orElse
  · exact (rejects_oneOf_iff.mpr absent.1).bind_left _
  · apply Rejects.orElse
    · exact (rejects_exactly_iff.mpr absent.2.1).bind_left _
    · exact (rejects_exactly_iff.mpr absent.2.2).bind_left _

theorem absent_of_rejects_piece {start : Cursor} (rejects : piece.Rejects start) :
    Absent start.rest := by
  rcases rejects_orElse_iff.mp rejects with ⟨noBlanks, rejects⟩
  rcases rejects_orElse_iff.mp rejects with ⟨noLineComment, noBlockComment⟩
  refine ⟨?_, ?_, ?_⟩
  · rcases rejects_bind_iff.mp noBlanks with rejects | ⟨_, _, _, rejects⟩
    · exact rejects_oneOf_iff.mp rejects
    · rcases rejects_bind_iff.mp rejects with rejects | ⟨_, _, _, rejects⟩
      · exact absurd rejects not_rejects_takeWhile
      · exact absurd rejects not_rejects_pure
  · rcases rejects_bind_iff.mp noLineComment with rejects | ⟨_, _, _, rejects⟩
    · exact rejects_exactly_iff.mp rejects
    · rcases rejects_bind_iff.mp rejects with rejects | ⟨_, _, _, rejects⟩
      · exact absurd rejects not_rejects_takeWhile
      · exact absurd rejects not_rejects_pure
  · rcases rejects_bind_iff.mp noBlockComment with rejects | ⟨_, _, _, rejects⟩
    · exact rejects_exactly_iff.mp rejects
    · exact absurd rejects not_rejects_commit

/-- Blanks are taken as far as they go, a line comment up to the end of its line, and a block
comment whole. -/
theorem of_done_piece {start stop : Cursor} (equal : piece.run start = .done () stop) :
    ∃ text, text ≠ [] ∧ start.Reads text stop ∧
      ((∀ character ∈ text, isBlank character = true) ∨
        (∃ comment, text = '/' :: '/' :: comment ∧
          (∀ character ∈ comment, isLineEnd character = false) ∧
          ∀ next ∈ stop.rest.head?, isLineEnd next = true) ∨
        IsPiece text) := by
  rcases done_orElse_iff.mp equal with equal | ⟨_, equal⟩
  · rcases done_bind_iff.mp equal with ⟨character, middle, first, equal⟩
    rcases done_bind_iff.mp equal with ⟨text, _, more, equal⟩
    rcases done_pure_iff.mp equal with ⟨_, rfl⟩
    rw [done_oneOf_iff] at first
    rw [done_takeWhile_iff] at more
    refine ⟨character :: text, by simp, first.2.trans more.1, .inl ?_⟩
    intro next member
    rcases List.mem_cons.mp member with rfl | member
    · exact first.1
    · exact more.2.1 next member
  · rcases done_orElse_iff.mp equal with equal | ⟨_, equal⟩
    · rcases done_bind_iff.mp equal with ⟨_, middle, opening, equal⟩
      rcases done_bind_iff.mp equal with ⟨comment, _, more, equal⟩
      rcases done_pure_iff.mp equal with ⟨_, rfl⟩
      rw [done_exactly_iff] at opening
      rw [done_takeWhile_iff] at more
      refine ⟨'/' :: '/' :: comment, by simp, opening.trans more.1, .inr (.inl ?_)⟩
      refine ⟨comment, rfl, ?_, ?_⟩
      · intro character member
        simpa using more.2.1 character member
      · intro next member
        simpa using more.2.2 next member
    · rcases done_bind_iff.mp equal with ⟨_, middle, opening, equal⟩
      rw [done_exactly_iff] at opening
      rw [done_commit_iff, done_within_iff] at equal
      -- A comment that is never closed would not have been read.
      cases split : splitComment middle.rest with
      | none => simp [restOfBlockComment, split] at equal
      | some parts =>
          rcases parts with ⟨text, rest⟩
          simp only [restOfBlockComment, split, Reply.done.injEq, true_and] at equal
          have more : middle.Reads text stop :=
            Cursor.reads_iff_advance.mpr ⟨rest, append_of_splitComment split, equal⟩
          rcases of_splitComment split with ⟨comment, rfl, inside⟩
          exact ⟨_, by simp, opening.trans more, .inr (.inr (.blockComment inside))⟩

end Trivia

/-! ## All pieces -/

open Trivia

theorem spells_trivia_iff {start stop : Cursor} :
    start.Spells Grammar.trivia stop ↔ ∃ text, start.Reads text stop ∧ IsTrivia text := by
  constructor
  · rintro ⟨text, reads, _, isTrivia⟩
    exact ⟨text, reads, isTrivia⟩
  · rintro ⟨text, reads, isTrivia⟩
    exact ⟨text, reads, .of_last (last_of_isTrivia isTrivia), isTrivia⟩

theorem run_trivia_of_absent {start : Cursor} (absent : Absent start.rest) :
    trivia.run start = .done () start := by
  have done := run_many_of_rejects (rejects_piece absent)
  exact run_bind_of_done done

theorem run_trivia_of_piece {start middle : Cursor} (equal : piece.run start = .done () middle) :
    trivia.run start = trivia.run middle := by
  rcases of_done_piece equal with ⟨text, notNil, reads, _⟩
  have moved := reads.moves notNil
  simp only [trivia, run_bind, run_many piece start, equal, moved, if_true]
  cases (many piece).run middle <;> rfl

theorem run_trivia_of_blank {start middle : Cursor} {character : Char}
    (reads : start.Reads [character] middle) (blank : isBlank character = true) :
    trivia.run start = trivia.run middle := by
  have taken : ∃ text stop, (takeWhile isBlank).run middle = .done text stop := ⟨_, _, rfl⟩
  rcases taken with ⟨text, stop, equal⟩
  rcases done_takeWhile_iff.mp equal with ⟨more, blanks, ends⟩
  have first : piece.run start = .done () stop := by
    refine done_orElse_iff.mpr (.inl (run_blanks (by simp) (reads.trans more) ?_ ends))
    intro next member
    rcases List.mem_cons.mp member with rfl | member
    · exact blank
    · exact blanks next member
  rw [run_trivia_of_piece first]
  by_cases none : text = []
  · subst none
    rw [Cursor.reads_nil_iff.mp more]
  · have second : piece.run middle = .done () stop :=
      done_orElse_iff.mpr (.inl (run_blanks none more blanks ends))
    rw [run_trivia_of_piece second]

/-- Trivia of the grammar is read whole, together with the trivia that follows it. -/
theorem run_trivia_of_spells {start stop : Cursor} (spells : start.Spells Grammar.trivia stop) :
    trivia.run start = trivia.run stop := by
  rcases spells_trivia_iff.mp spells with ⟨text, reads, isTrivia⟩
  clear spells
  induction isTrivia generalizing start with
  | nil =>
      rw [Cursor.reads_nil_iff] at reads
      rw [reads]
  | cons isPiece _ induction =>
      rcases Cursor.reads_append_iff.mp reads with ⟨middle, first, more⟩
      rw [← induction more]
      cases isPiece with
      | blank blank => exact run_trivia_of_blank first blank
      | @lineComment comment lineEnd inLine ends =>
          rw [← List.cons_append, ← List.cons_append, Cursor.reads_append_iff] at first
          rcases first with ⟨lineStop, comment, lineEnd⟩
          have equal := run_lineComment comment inLine (by
            rw [lineEnd.rest_eq]
            rintro next ⟨rfl⟩
            exact ends)
          rw [run_trivia_of_piece equal]
          exact run_trivia_of_blank lineEnd (isBlank_of_isLineEnd ends)
      | blockComment inside => exact run_trivia_of_piece (run_blockComment first inside)

theorem run_trivia {start stop : Cursor} (spells : start.Spells Grammar.trivia stop)
    (absent : Absent stop.rest) : trivia.run start = .done () stop :=
  (run_trivia_of_spells spells).trans (run_trivia_of_absent absent)

/-- At the end of a text a line comment needs no line end. -/
theorem run_trivia_at_end {start middle stop : Cursor}
    (spells : start.Spells Grammar.trivia middle)
    (openComment : middle.Spells (.language IsOpenComment) stop) (atEnd : stop.rest = []) :
    trivia.run start = .done () stop := by
  rw [run_trivia_of_spells spells]
  have absent : Absent stop.rest := by
    rw [atEnd]
    exact absent_nil
  rcases openComment with ⟨text, reads, _, rfl | ⟨comment, inLine, rfl⟩⟩
  · rw [← Cursor.reads_nil_iff.mp reads]
    exact run_trivia_of_absent absent
  · have equal := run_lineComment reads inLine (by simp [atEnd])
    exact (run_trivia_of_piece equal).trans (run_trivia_of_absent absent)

/-- A line comment is whole only together with the line end behind it, which begins the trivia that
is read next. -/
private theorem spells_lineComment {start middle triviaStop stop : Cursor} {comment : List Char}
    (first : start.Reads ('/' :: '/' :: comment) middle)
    (inLine : ∀ character ∈ comment, isLineEnd character = false)
    (lineEnds : ∀ next ∈ middle.rest.head?, isLineEnd next = true)
    (more : middle.Spells Grammar.trivia triviaStop)
    (last : triviaStop.Spells (.language IsOpenComment) stop) (absent : Absent stop.rest)
    (ends : triviaStop = stop ∨ stop.rest = []) :
    ∃ triviaStop, start.Spells Grammar.trivia triviaStop ∧
      triviaStop.Spells (.language IsOpenComment) stop ∧
      (triviaStop = stop ∨ stop.rest = []) := by
  rcases spells_trivia_iff.mp more with ⟨text, reads, isTrivia⟩
  rcases last with ⟨openText, openReads, openApart, isOpen⟩
  cases text with
  | nil =>
      obtain rfl := Cursor.reads_nil_iff.mp reads
      rcases isOpen with rfl | ⟨inside, _, rfl⟩
      -- A line end would be a blank, and none is left, so the text ends with the comment.
      · obtain rfl := Cursor.reads_nil_iff.mp openReads
        have atEnd : stop.rest = [] := by
          cases rest : stop.rest with
          | nil => rfl
          | cons next _ =>
              have lineEnd := lineEnds next (by simp [rest])
              have notBlank := absent.1 next (by simp [rest])
              rw [isBlank_of_isLineEnd lineEnd] at notBlank
              cases notBlank
        refine ⟨start, spells_trivia_iff.mpr ⟨[], .refl start, .nil⟩, ?_, .inr atEnd⟩
        refine ⟨_, first, ?_, .inr ⟨comment, inLine, rfl⟩⟩
        rw [atEnd]
        exact .nil_right _
      · have slash := lineEnds '/' (by simp [openReads.rest_eq])
        cases slash
  | cons lineEnd text =>
      have lineEnd_ends := lineEnds lineEnd (by simp [reads.rest_eq])
      have piece := isTrivia_of_piece (.lineComment inLine lineEnd_ends)
      have whole := isTrivia_append piece (isTrivia_of_lineEnd_cons lineEnd_ends isTrivia)
      refine ⟨triviaStop, spells_trivia_iff.mpr ⟨_, first.trans reads, ?_⟩,
        ⟨openText, openReads, openApart, isOpen⟩, ends⟩
      simpa using whole

/-- What is read as trivia is trivia of the grammar, up to a comment that has no line end because
the whole text ends. -/
theorem of_done_trivia {start stop : Cursor} (equal : trivia.run start = .done () stop) :
    Absent stop.rest ∧ ∃ middle, start.Spells Grammar.trivia middle ∧
      middle.Spells (.language IsOpenComment) stop ∧ (middle = stop ∨ stop.rest = []) := by
  rcases done_bind_iff.mp equal with ⟨units, _, pieces, done⟩
  rcases done_pure_iff.mp done with ⟨_, rfl⟩
  refine many_induction (motive := fun start _ stop => Absent stop.rest ∧ ∃ middle,
    start.Spells Grammar.trivia middle ∧ middle.Spells (.language IsOpenComment) stop ∧
      (middle = stop ∨ stop.rest = [])) ?_ ?_ start pieces
  · intro cursor rejects
    exact ⟨absent_of_rejects_piece rejects, cursor,
      spells_trivia_iff.mpr ⟨[], .refl cursor, .nil⟩,
      ⟨[], .refl cursor, .nil_left _, .inl rfl⟩, .inl rfl⟩
  · intro start middle stop _ _ first _ _ induction
    rcases induction with ⟨absent, triviaStop, more, comment, ends⟩
    rcases of_done_piece first with ⟨piece, _, readsPiece, kind⟩
    have prepend (isTriviaPiece : IsTrivia piece) : start.Spells Grammar.trivia triviaStop := by
      rcases spells_trivia_iff.mp more with ⟨text, reads, isTrivia⟩
      exact spells_trivia_iff.mpr
        ⟨_, readsPiece.trans reads, isTrivia_append isTriviaPiece isTrivia⟩
    refine ⟨absent, ?_⟩
    rcases kind with blank | ⟨inside, rfl, inLine, lineEnds⟩ | isPiece
    · exact ⟨triviaStop, prepend (isTrivia_of_blanks blank), comment, ends⟩
    · exact spells_lineComment readsPiece inLine lineEnds more comment absent ends
    · exact ⟨triviaStop, prepend (isTrivia_of_piece isPiece), comment, ends⟩

theorem spells_of_done_trivia {start stop : Cursor} (equal : trivia.run start = .done () stop)
    (inside : stop.rest ≠ []) : start.Spells Grammar.trivia stop ∧ Absent stop.rest := by
  rcases of_done_trivia equal with ⟨absent, middle, spells, _, rfl | atEnd⟩
  · exact ⟨spells, absent⟩
  · exact absurd atEnd inside

/-! ## Gaps -/

theorem rejects_gap {start : Cursor} (absent : Absent start.rest) : gap.Rejects start :=
  ((rejects_piece absent).bind_left _).bind_left _

theorem run_gap {start : Cursor} (present : ¬ Absent start.rest) :
    gap.run start = trivia.run start := by
  cases equal : piece.run start with
  | done value middle =>
      rw [run_trivia_of_piece equal]
      simp only [gap, trivia, many1, run_bind, equal]
      cases (many piece).run middle <;> rfl
  | rejected failure => exact absurd (absent_of_rejects_piece ⟨failure, equal⟩) present
  | aborted failure => simp only [gap, trivia, many1, run_bind, run_many piece start, equal]

theorem spells_gap_iff {start stop : Cursor} :
    start.Spells Grammar.gap stop ↔ start.Spells Grammar.trivia stop ∧ start ≠ stop := by
  constructor
  · rintro ⟨text, reads, apart, isTrivia, notNil⟩
    refine ⟨⟨text, reads, apart, isTrivia⟩, ?_⟩
    rintro rfl
    exact Nat.lt_irrefl _ (reads.moves notNil)
  · rintro ⟨⟨text, reads, apart, isTrivia⟩, moved⟩
    refine ⟨text, reads, apart, isTrivia, ?_⟩
    rintro rfl
    exact moved (Cursor.reads_nil_iff.mp reads).symm

theorem present_of_spells_gap {start stop : Cursor} (spells : start.Spells Grammar.gap stop) :
    ¬ Absent start.rest := by
  intro absent
  rcases spells with ⟨text, reads, _, isTrivia, notNil⟩
  cases isTrivia with
  | nil => exact notNil rfl
  | cons isPiece _ =>
      rw [reads.rest_eq] at absent
      cases isPiece with
      | @blank character blank =>
          have notBlank := absent.1 character rfl
          rw [blank] at notBlank
          cases notBlank
      | lineComment _ _ => exact absent.2.1 ⟨_, rfl⟩
      | blockComment _ => exact absent.2.2 ⟨_, rfl⟩

theorem run_gap_of_spells {start stop : Cursor} (spells : start.Spells Grammar.gap stop)
    (absent : Absent stop.rest) : gap.run start = .done () stop := by
  rw [run_gap (present_of_spells_gap spells)]
  exact run_trivia (spells_gap_iff.mp spells).1 absent

theorem spells_of_done_gap {start stop : Cursor} (equal : gap.run start = .done () stop)
    (inside : stop.rest ≠ []) : start.Spells Grammar.gap stop ∧ Absent stop.rest := by
  by_cases absent : Absent start.rest
  · rcases rejects_gap absent with ⟨failure, rejected⟩
    rw [equal] at rejected
    cases rejected
  · rw [run_gap absent] at equal
    rcases spells_of_done_trivia equal inside with ⟨spells, absentBehind⟩
    refine ⟨spells_gap_iff.mpr ⟨spells, ?_⟩, absentBehind⟩
    rintro rfl
    exact absent absentBehind

end PermissionTypes.Schema
