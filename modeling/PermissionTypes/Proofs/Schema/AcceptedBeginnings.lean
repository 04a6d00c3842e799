import PermissionTypes.Proofs.Schema.FailureReasons

/-! Where a whole schema has been read, no construct is open. Whatever follows such a beginning,
nothing fails inside a construct before it. -/

namespace PermissionTypes.Schema

open Text (byteLength)
open Schema.Parser
open Trivia (isLineEnd)
open Grammar (IsIdentifier IsOpenComment)

theorem exists_reads_takeWhile (start : Cursor) (belongs : Char → Bool) :
    ∃ text stop, start.Reads text stop ∧ (∀ character ∈ text, belongs character = true) ∧
      ∀ next ∈ stop.rest.head?, belongs next = false :=
  ⟨_, _, done_takeWhile_iff.mp rfl⟩

/-! ## Items that go on -/

theorem Spelling.punctuated_append_sign (front : Spelling) {sign : Char}
    (notWord : isWordCharacter sign = false) : (front ++ Grammar.sign sign).Punctuated := by
  intro offset text spelled last member
  rcases spelled with ⟨first, _, rfl, _, _, rfl⟩
  rw [List.getLast?_concat, Option.mem_some_iff] at member
  exact member ▸ notWord

theorem isIdentifier_append {text more : List Char} (isIdentifier : IsIdentifier text)
    (words : ∀ character ∈ more, isWordCharacter character = true) :
    IsIdentifier (text ++ more) := by
  rcases isIdentifier with ⟨first, rest, rfl, letter, word⟩
  exact ⟨first, rest ++ more, rfl, letter, List.forall_mem_append.mpr ⟨word, words⟩⟩

/-- Only a feature can be followed by more of its name. Then the longer name is the feature. -/
theorem item_goes_on {written : Item} (shaped : written.WellShaped) {start stop : Cursor}
    {text : List Char} (reads : start.Reads text stop)
    (spelled : Grammar.item written start.offset text) (together : ¬ Apart text stop.rest) :
    ∃ longer behind, longer.WellShaped ∧ start.Spells (Grammar.item longer) behind ∧
      stop.offset < behind.offset := by
  cases written with
  | definition declared =>
      exact absurd (.of_last (Spelling.punctuated_append_sign _ rfl spelled)) together
  | caveat declared =>
      exact absurd (.of_last (Spelling.punctuated_append_sign _ rfl spelled)) together
  | feature name =>
      rcases exists_reads_takeWhile stop isWordCharacter with ⟨more, behind, readsMore, words, ends⟩
      rcases spelled with ⟨front, _, rfl, apart, frontSpelled, place, rfl⟩
      have goesOn : more ≠ [] := by
        intro none
        subst none
        rw [Cursor.reads_nil_iff.mp readsMore] at ends
        exact together (.of_head ends)
      have isIdentifier : IsIdentifier (name.text.toList ++ more) :=
        isIdentifier_append shaped words
      let longer : Name := {
        text := String.ofList (name.text.toList ++ more)
        offset := name.offset }
      have longerText : longer.text.toList = name.text.toList ++ more := String.toList_ofList
      refine ⟨.feature longer, behind, by rwa [← longerText] at isIdentifier, ?_,
        readsMore.moves goesOn⟩
      refine ⟨front ++ (name.text.toList ++ more), ?_, .of_head ?_, ?_⟩
      · rw [← List.append_assoc]
        exact reads.trans readsMore
      · exact ends
      · refine ⟨front, name.text.toList ++ more, rfl, ?_, frontSpelled, place, longerText.symm⟩
        exact Apart.append_right_iff.mpr
          ⟨apart, fun none => absurd none (Grammar.IsIdentifier.ne_nil shaped)⟩

/-! ## Beginnings that are schemas -/

theorem fails_entries_behind {start middle : Cursor} {read : Item} {failure : Failure}
    (equal : item.run start = .done read middle) (fails : (entries item).Fails start failure) :
    entriesBehindTrivia.Fails middle failure := by
  have moved := advances_item.moves equal
  rcases fails_many_iff.mp fails with aborts | ⟨value, stop, stepEqual, fails⟩
  · rcases aborts_bind_iff.mp aborts with aborts | ⟨_, other, otherEqual, aborts⟩
    · exact absurd aborts.fails (not_fails_of_done equal failure)
    · obtain ⟨rfl, rfl⟩ := Reply.done.inj (equal.symm.trans otherEqual)
      exact fails_bind_iff.mpr (.inl (fails_bind_pure_iff.mp aborts.fails))
  · rcases done_bind_iff.mp stepEqual with ⟨_, other, otherEqual, behindEqual⟩
    obtain ⟨rfl, rfl⟩ := Reply.done.inj (equal.symm.trans otherEqual)
    rcases done_bind_iff.mp behindEqual with ⟨_, _, triviaEqual, result⟩
    rcases done_pure_iff.mp result with ⟨rfl, rfl⟩
    have further := (reaches_of_done triviaEqual).offset_le
    rw [if_pos (Nat.lt_of_lt_of_le moved further)] at fails
    exact fails_bind_iff.mpr (.inr ⟨(), _, triviaEqual, fails⟩)

theorem fails_behind_trivia {start middle : Cursor} {failure : Failure}
    (same : trivia.run start = trivia.run middle)
    (fails : entriesBehindTrivia.Fails start failure) :
    entriesBehindTrivia.Fails middle failure := by
  rw [Fails, entriesBehindTrivia, run_bind] at fails ⊢
  rwa [← same]

/-- A line comment that is open goes on, and nothing fails in it. -/
theorem stop_lt_of_fails_behind_openComment {start stop : Cursor} {comment : List Char}
    (reads : start.Reads comment stop) (isOpen : IsOpenComment comment) {failure : Failure}
    (fails : entriesBehindTrivia.Fails start failure) : stop.offset < failure.stop.offset := by
  rcases isOpen with rfl | ⟨comment, inLine, rfl⟩
  · obtain rfl := Cursor.reads_nil_iff.mp reads
    exact (isInside_of_fails_entriesBehindTrivia fails).behind
  · rcases exists_reads_takeWhile stop (!isLineEnd ·) with ⟨more, behind, readsMore, goesOn, ends⟩
    have whole : start.Reads ('/' :: '/' :: (comment ++ more)) behind := reads.trans readsMore
    have inWhole : ∀ character ∈ comment ++ more, isLineEnd character = false :=
      List.forall_mem_append.mpr ⟨inLine, fun character member => by
        simpa using goesOn character member⟩
    have pieceEqual := Trivia.run_lineComment whole inWhole fun next member => by
      simpa using ends next member
    have later := fails_behind_trivia (run_trivia_of_piece pieceEqual) fails
    have reaches : stop.Reaches behind := ⟨more, readsMore⟩
    exact ((isInside_of_fails_entriesBehindTrivia later).of_reaches reaches).behind

/-- Behind a schema, failures inside constructs happen only behind its end. -/
theorem stop_lt_of_fails_behind_schema {written : List Item}
    (shaped : ∀ item ∈ written, item.WellShaped) {start stop : Cursor} {text : List Char}
    (reads : start.Reads text stop)
    (spelled : (Grammar.items written ++ .language IsOpenComment) start.offset text)
    {failure : Failure} (fails : entriesBehindTrivia.Fails start failure) :
    stop.offset < failure.stop.offset := by
  induction written generalizing start text with
  | nil =>
      rw [Grammar.items_nil] at spelled
      rcases spelled with ⟨front, comment, rfl, _, isTrivia, isOpen⟩
      rcases Cursor.reads_append_iff.mp reads with ⟨middle, frontReads, commentReads⟩
      have frontSpells := spells_trivia_iff.mpr ⟨front, frontReads, isTrivia⟩
      exact stop_lt_of_fails_behind_openComment commentReads isOpen
        (fails_behind_trivia (run_trivia_of_spells frontSpells) fails)
  | cons first more induction =>
      rcases List.forall_mem_cons.mp shaped with ⟨firstShaped, moreShaped⟩
      rw [Grammar.items_cons, Spelling.append_assoc, Spelling.append_assoc] at spelled
      rcases spelled with ⟨front, _, rfl, _, isTrivia, itemText, behind, rfl, apart, itemSpelled,
        moreSpelled⟩
      rcases Cursor.reads_append_iff.mp reads with ⟨begin, frontReads, reads⟩
      rcases Cursor.reads_append_iff.mp reads with ⟨middle, itemReads, moreReads⟩
      have frontSpells := spells_trivia_iff.mpr ⟨front, frontReads, isTrivia⟩
      rw [← frontReads.offset_eq] at itemSpelled moreSpelled
      rw [← itemReads.offset_eq] at moreSpelled
      -- The item is read as far as it goes, and what fails does so behind it.
      have failsBehind {read : Item} {last : Cursor} (readShaped : read.WellShaped)
          (spells : begin.Spells (Grammar.item read) last) :
          entriesBehindTrivia.Fails last failure := by
        rcases run_item readShaped spells with ⟨equal, solid, _⟩
        have frontEqual := run_trivia frontSpells solid.absent
        rcases fails_bind_iff.mp fails with fails | ⟨_, _, otherEqual, fails⟩
        · exact absurd fails (not_fails_of_done frontEqual failure)
        · obtain ⟨-, rfl⟩ := Reply.done.inj (frontEqual.symm.trans otherEqual)
          exact fails_entries_behind equal fails
      by_cases apartBehind : Apart itemText middle.rest
      · exact induction moreShaped moreReads moreSpelled
          (failsBehind firstShaped ⟨itemText, itemReads, apartBehind, itemSpelled⟩)
      -- The text goes on with a word, which can only lengthen the last name of all.
      · rcases item_goes_on firstShaped itemReads itemSpelled apartBehind with
          ⟨longer, last, longerShaped, spells, further⟩
        have nothingBehind : behind = [] := by
          by_contra something
          rw [moreReads.rest_eq] at apartBehind
          exact apartBehind (Apart.append_right_iff.mpr
            ⟨apart, fun none => absurd none something⟩)
        subst nothingBehind
        obtain rfl := Cursor.reads_nil_iff.mp moreReads
        have later := isInside_of_fails_entriesBehindTrivia (failsBehind longerShaped spells)
        exact Nat.lt_trans further later.behind

end PermissionTypes.Schema
