import PermissionTypes.Proofs.Schema.Spelling

/-! When a parser is done with a text, and when it rejects one: one law for each way to build
parsers. Later proofs open parsers with these laws only. -/

namespace PermissionTypes.Schema

namespace Cursor

theorem reads_iff_advance {start stop : Cursor} {text : List Char} :
    start.Reads text stop ↔
      ∃ rest, start.rest = text ++ rest ∧ start.advance text rest = stop := by
  constructor
  · rintro ⟨rest, offset⟩
    refine ⟨stop.rest, rest, ?_⟩
    cases stop
    simp_all [advance]
  · rintro ⟨rest, equal, rfl⟩
    exact reads_advance equal

end Cursor

namespace Parser

/-- The parser gives back what it may have read, so that another one can be tried. -/
def Rejects (parser : Parser α) (cursor : Cursor) : Prop :=
  ∃ failure, parser.run cursor = .rejected failure

/-! ## Sequences -/

theorem run_bind (first : Parser α) (next : α → Parser β) (start : Cursor) :
    (first >>= next).run start =
      match first.run start with
      | .done value middle => (next value).run middle
      | .rejected failure => .rejected failure
      | .aborted failure => .aborted failure := rfl

theorem run_bind_of_done {first : Parser α} {next : α → Parser β} {start middle : Cursor}
    {value : α} (equal : first.run start = .done value middle) :
    (first >>= next).run start = (next value).run middle := by
  rw [run_bind, equal]

theorem done_pure_iff {start stop : Cursor} {value result : α} :
    (pure value : Parser α).run start = .done result stop ↔ value = result ∧ start = stop := by
  change Reply.done value start = .done result stop ↔ _
  simp

theorem done_bind_iff {first : Parser α} {next : α → Parser β} {start stop : Cursor}
    {result : β} :
    (first >>= next).run start = .done result stop ↔
      ∃ value middle, first.run start = .done value middle ∧
        (next value).run middle = .done result stop := by
  rw [run_bind]
  cases first.run start with
  | done value middle =>
      constructor
      · intro equal
        exact ⟨value, middle, rfl, equal⟩
      · rintro ⟨_, _, ⟨rfl, rfl⟩, equal⟩
        exact equal
  | rejected failure => simp
  | aborted failure => simp

theorem rejects_bind_iff {first : Parser α} {next : α → Parser β} {start : Cursor} :
    (first >>= next).Rejects start ↔ first.Rejects start ∨
      ∃ value middle, first.run start = .done value middle ∧ (next value).Rejects middle := by
  simp only [Rejects, run_bind]
  cases first.run start with
  | done value middle =>
      constructor
      · intro rejects
        exact .inr ⟨value, middle, rfl, rejects⟩
      · rintro (⟨_, impossible⟩ | ⟨_, _, ⟨rfl, rfl⟩, rejects⟩)
        · cases impossible
        · exact rejects
  | rejected failure => simp
  | aborted failure => simp

theorem not_rejects_pure {start : Cursor} {value : α} :
    ¬ (pure value : Parser α).Rejects start := by
  rintro ⟨failure, equal⟩
  cases equal

theorem Rejects.bind_left {first : Parser α} {start : Cursor} (rejects : first.Rejects start)
    (next : α → Parser β) : (first >>= next).Rejects start :=
  rejects_bind_iff.mpr (.inl rejects)

theorem Rejects.bind_right {first : Parser α} {next : α → Parser β} {start middle : Cursor}
    {value : α} (equal : first.run start = .done value middle)
    (rejects : (next value).Rejects middle) : (first >>= next).Rejects start :=
  rejects_bind_iff.mpr (.inr ⟨value, middle, equal, rejects⟩)

/-! ## Alternatives -/

theorem done_orElse_iff {first second : Parser α} {start stop : Cursor} {result : α} :
    (first <|> second).run start = .done result stop ↔
      first.run start = .done result stop ∨
        first.Rejects start ∧ second.run start = .done result stop := by
  change (Parser.orElse first fun _ => second).run start = _ ↔ _
  cases equal : first.run start <;> simp [Parser.orElse, Rejects, equal]

theorem run_orElse_of_rejects {first : Parser α} {start : Cursor} (rejects : first.Rejects start)
    (second : Parser α) : (first <|> second).run start = second.run start := by
  rcases rejects with ⟨failure, equal⟩
  change (Parser.orElse first fun _ => second).run start = _
  simp only [Parser.orElse, equal]

theorem rejects_orElse_iff {first second : Parser α} {start : Cursor} :
    (first <|> second).Rejects start ↔ first.Rejects start ∧ second.Rejects start := by
  change (Parser.orElse first fun _ => second).Rejects start ↔ _
  cases equal : first.run start <;> simp [Rejects, Parser.orElse, equal]

theorem Rejects.orElse {first second : Parser α} {start : Cursor}
    (rejects : first.Rejects start) (rejectsSecond : second.Rejects start) :
    (first <|> second).Rejects start :=
  rejects_orElse_iff.mpr ⟨rejects, rejectsSecond⟩

theorem done_perhaps_iff {parser : Parser α} {start stop : Cursor} {result : Option α} :
    (perhaps parser).run start = .done result stop ↔
      (∃ value, result = some value ∧ parser.run start = .done value stop) ∨
        result = none ∧ parser.Rejects start ∧ stop = start := by
  cases equal : parser.run start with
  | done value middle => cases result <;> simp [perhaps, Rejects, equal]
  | rejected failure => simp [perhaps, Rejects, equal, eq_comm]
  | aborted failure => simp [perhaps, Rejects, equal]

theorem done_commit_iff {parser : Parser α} {start stop : Cursor} {result : α} :
    (commit parser).run start = .done result stop ↔
      parser.run start = .done result stop := by
  cases equal : parser.run start <;> simp [commit, equal]

theorem not_rejects_commit {parser : Parser α} {start : Cursor} :
    ¬ (commit parser).Rejects start := by
  cases equal : parser.run start <;> simp [Rejects, commit, equal]

theorem done_within_iff {construct : Construct} {parser : Parser α} {start stop : Cursor}
    {result : α} :
    (within construct parser).run start = .done result stop ↔
      parser.run start = .done result stop := by
  cases equal : parser.run start <;> simp [within, Reply.mapFailure, equal]

theorem rejects_within_iff {construct : Construct} {parser : Parser α} {start : Cursor} :
    (within construct parser).Rejects start ↔ parser.Rejects start := by
  cases equal : parser.run start <;> simp [Rejects, within, Reply.mapFailure, equal]

theorem done_delay_iff {parser : Unit → Parser α} {start stop : Cursor} {result : α} :
    (delay parser).run start = .done result stop ↔
      (parser ()).run start = .done result stop :=
  Iff.rfl

/-! ## Repetitions -/

theorem run_many_of_rejects {parser : Parser α} {start : Cursor}
    (rejects : parser.Rejects start) : (many parser).run start = .done [] start := by
  rcases rejects with ⟨failure, equal⟩
  rw [run_many, equal]

theorem run_many_of_done {parser : Parser α} {start middle : Cursor} {value : α}
    (equal : parser.run start = .done value middle) (moved : start.offset < middle.offset)
    {values : List α} {stop : Cursor} (more : (many parser).run middle = .done values stop) :
    (many parser).run start = .done (value :: values) stop := by
  rw [run_many, equal]
  simp [moved, more]

/-- What holds behind no repetition, and before one more repetition if it holds behind it, holds
whenever the repetitions come to a good end. -/
theorem many_induction {parser : Parser α} {motive : Cursor → List α → Cursor → Prop}
    (ends : ∀ cursor, parser.Rejects cursor → motive cursor [] cursor)
    (goesOn : ∀ {start middle stop value values}, parser.run start = .done value middle →
      start.offset < middle.offset → (many parser).run middle = .done values stop →
      motive middle values stop → motive start (value :: values) stop)
    {values : List α} (start : Cursor) {stop : Cursor}
    (equal : (many parser).run start = .done values stop) : motive start values stop := by
  -- By induction on what is left to read, since the list of values is not known yet.
  induction bound : start.rest.length using Nat.strongRecOn generalizing start values with
  | ind size induction =>
      rw [run_many] at equal
      split at equal
      · rename_i value middle firstEqual
        split at equal
        · rename_i moved
          have shorter := (reaches_of_done firstEqual).length_lt moved
          split at equal
          · rename_i more moreStop moreEqual
            cases equal
            exact goesOn firstEqual moved moreEqual
              (induction middle.rest.length (bound ▸ shorter) middle moreEqual rfl)
          · cases equal
          · cases equal
        · cases equal
      · rename_i failure firstEqual
        cases equal
        exact ends _ ⟨failure, firstEqual⟩
      · cases equal

theorem spells_of_many {parser : Parser α} {spelling : α → Spelling}
    (spells : ∀ {value start stop}, parser.run start = .done value stop →
      start.Spells (spelling value) stop)
    {start stop : Cursor} {values : List α}
    (equal : (many parser).run start = .done values stop) :
    start.Spells (.each spelling values) stop := by
  refine many_induction
    (motive := fun start values stop => start.Spells (.each spelling values) stop)
    ?_ ?_ start equal
  · intro cursor _
    exact Cursor.spells_exactly_nil_iff.mpr rfl
  · intro start middle stop value values first _ _ induction
    exact (spells first).append induction

theorem all_of_many {parser : Parser α} {holds : α → Prop}
    (all : ∀ {value start stop}, parser.run start = .done value stop → holds value)
    {start stop : Cursor} {values : List α}
    (equal : (many parser).run start = .done values stop) : ∀ value ∈ values, holds value := by
  refine many_induction (motive := fun _ values _ => ∀ value ∈ values, holds value)
    ?_ ?_ start equal
  · intro _ _ value member
    cases member
  · intro start middle stop value values first _ _ induction found member
    rcases List.mem_cons.mp member with rfl | member
    · exact all first
    · exact induction found member

/-- A list of values, each of which leads from the place of the one before it to its own. -/
def Links (link : α → Cursor → Cursor → Prop) : List α → Cursor → Cursor → Prop
  | [], start, stop => start = stop
  | value :: values, start, stop =>
      ∃ middle, link value start middle ∧ Links link values middle stop

/-- Linked values are read, if each of them is read before what can follow it. What can follow is
the next one or the end, where the parser has to reject. -/
theorem run_many_of_links {parser : Parser α} {link : α → Cursor → Cursor → Prop}
    (follows : Cursor → Prop) {values : List α}
    (reads : ∀ value ∈ values, ∀ ⦃start stop : Cursor⦄, link value start stop → follows stop →
      parser.run start = .done value stop ∧ start.offset < stop.offset ∧ follows start)
    {start stop : Cursor} (links : Links link values start stop)
    (ends : follows stop) (rejects : parser.Rejects stop) :
    (many parser).run start = .done values stop ∧ follows start := by
  induction values generalizing start with
  | nil =>
      cases links
      exact ⟨run_many_of_rejects rejects, ends⟩
  | cons value values induction =>
      rcases links with ⟨middle, first, more⟩
      have readsMore := fun next member => reads next (List.mem_cons_of_mem _ member)
      rcases induction readsMore more with ⟨moreEqual, followsFirst⟩
      rcases reads value (List.mem_cons_self ..) first followsFirst with
        ⟨equal, moved, followsHere⟩
      exact ⟨run_many_of_done equal moved moreEqual, followsHere⟩

theorem links_of_spells {spelling : α → Spelling} {values : List α} {start stop : Cursor}
    (spells : start.Spells (.each spelling values) stop) :
    Links (fun value start stop => start.Spells (spelling value) stop) values start stop := by
  induction values generalizing start with
  | nil => exact (Cursor.spells_exactly_nil_iff.mp spells).symm
  | cons value values induction =>
      rcases Cursor.spells_append_iff.mp spells with ⟨middle, first, more⟩
      exact ⟨middle, first, induction more⟩

theorem links_of_reads {text : α → List Char} {values : List α} {start stop : Cursor}
    (reads : start.Reads (values.flatMap text) stop) :
    Links (fun value start stop => start.Reads (text value) stop) values start stop := by
  induction values generalizing start with
  | nil => exact (Cursor.reads_nil_iff.mp reads).symm
  | cons value values induction =>
      rcases Cursor.reads_append_iff.mp reads with ⟨middle, first, more⟩
      exact ⟨middle, first, induction more⟩

/-! ## Characters -/

theorem done_character_iff {wanted : Char} {start stop : Cursor} {result : Unit} :
    (character wanted).run start = .done result stop ↔ start.Reads [wanted] stop := by
  rw [Cursor.reads_iff_advance]
  cases equal : start.rest with
  | nil => simp [character, equal]
  | cons found rest =>
      by_cases same : found = wanted <;> simp [character, equal, same]

theorem run_character {wanted : Char} {start stop : Cursor} (reads : start.Reads [wanted] stop) :
    (character wanted).run start = .done () stop :=
  done_character_iff.mpr reads

theorem rejects_character_iff {wanted : Char} {start : Cursor} :
    (character wanted).Rejects start ↔ ∀ found ∈ start.rest.head?, found ≠ wanted := by
  cases equal : start.rest with
  | nil => simp [Rejects, character, equal]
  | cons found rest => by_cases same : found = wanted <;> simp [Rejects, character, equal, same]

theorem done_oneOf_iff {belongs : Char → Bool} {start stop : Cursor} {result : Char} :
    (oneOf belongs).run start = .done result stop ↔
      belongs result = true ∧ start.Reads [result] stop := by
  rw [Cursor.reads_iff_advance]
  cases equal : start.rest with
  | nil => simp [oneOf, equal]
  | cons found rest =>
      by_cases holds : belongs found = true
      · simp only [oneOf, equal, holds, if_true, Reply.done.injEq, List.cons_append,
          List.nil_append, List.cons.injEq]
        constructor
        · rintro ⟨rfl, moved⟩
          exact ⟨holds, rest, ⟨rfl, rfl⟩, moved⟩
        · rintro ⟨_, _, ⟨rfl, rfl⟩, moved⟩
          exact ⟨rfl, moved⟩
      · simp only [oneOf, equal, holds, Bool.false_eq_true, if_false, reduceCtorEq, false_iff]
        rintro ⟨resultHolds, _, restEqual, _⟩
        cases restEqual
        exact holds resultHolds

theorem rejects_oneOf_iff {belongs : Char → Bool} {start : Cursor} :
    (oneOf belongs).Rejects start ↔ ∀ found ∈ start.rest.head?, belongs found = false := by
  cases equal : start.rest with
  | nil => simp [Rejects, oneOf, equal]
  | cons found rest => cases holds : belongs found <;> simp [Rejects, oneOf, equal, holds]

theorem done_takeWhile_iff {belongs : Char → Bool} {start stop : Cursor} {result : List Char} :
    (takeWhile belongs).run start = .done result stop ↔
      start.Reads result stop ∧ (∀ character ∈ result, belongs character = true) ∧
        ∀ next ∈ stop.rest.head?, belongs next = false := by
  rw [Cursor.reads_iff_advance]
  simp only [takeWhile, Reply.done.injEq]
  constructor
  · rintro ⟨rfl, rfl⟩
    refine ⟨⟨_, List.takeWhile_append_dropWhile.symm, rfl⟩,
      List.all_eq_true.mp List.all_takeWhile, ?_⟩
    intro next member
    have stops := List.head?_dropWhile_not belongs start.rest
    rw [Cursor.advance, Option.mem_def] at member
    rw [member] at stops
    simpa using stops
  · rintro ⟨⟨rest, equal, rfl⟩, belongsAll, stops⟩
    have stopsHere : rest.takeWhile belongs = [] ∧ rest.dropWhile belongs = rest := by
      cases rest with
      | nil => exact ⟨rfl, rfl⟩
      | cons next rest =>
          have other : belongs next = false := stops next rfl
          simp [other]
    have taken : start.rest.takeWhile belongs = result := by
      rw [equal, List.takeWhile_append_of_pos belongsAll, stopsHere.1, List.append_nil]
    have dropped : start.rest.dropWhile belongs = rest := by
      rw [equal, List.dropWhile_append_of_pos belongsAll, stopsHere.2]
    rw [taken, dropped]
    exact ⟨rfl, rfl⟩

theorem not_rejects_takeWhile {belongs : Char → Bool} {start : Cursor} :
    ¬ (takeWhile belongs).Rejects start := by
  rintro ⟨failure, equal⟩
  cases equal

theorem done_exactly_iff {text : List Char} {start stop : Cursor} {result : Unit} :
    (exactly text).run start = .done result stop ↔ start.Reads text stop := by
  rw [Cursor.reads_iff_advance]
  by_cases fits : text.isPrefixOf start.rest = true
  · rcases List.isPrefixOf_iff_prefix.mp fits with ⟨rest, equal⟩
    simp [exactly, ← equal]
  · simp only [exactly, fits, Bool.false_eq_true, if_false, reduceCtorEq, false_iff]
    rintro ⟨rest, equal, _⟩
    exact fits (List.isPrefixOf_iff_prefix.mpr ⟨rest, equal.symm⟩)

theorem run_exactly {text : List Char} {start stop : Cursor} (reads : start.Reads text stop) :
    (exactly text).run start = .done () stop :=
  done_exactly_iff.mpr reads

theorem rejects_exactly_iff {text : List Char} {start : Cursor} :
    (exactly text).Rejects start ↔ ¬ text <+: start.rest := by
  by_cases fits : text <+: start.rest <;> simp [Rejects, exactly, fits]

theorem done_notBefore_iff {belongs : Char → Bool} {start stop : Cursor} {result : Unit} :
    (notBefore belongs).run start = .done result stop ↔
      start = stop ∧ ∀ next ∈ start.rest.head?, belongs next = false := by
  cases equal : start.rest with
  | nil => simp [notBefore, equal]
  | cons next rest =>
      cases holds : belongs next <;> simp [notBefore, equal, holds]

theorem rejects_notBefore_iff {belongs : Char → Bool} {start : Cursor} :
    (notBefore belongs).Rejects start ↔ ∃ next ∈ start.rest.head?, belongs next = true := by
  cases equal : start.rest with
  | nil => simp [Rejects, notBefore, equal]
  | cons next rest => cases holds : belongs next <;> simp [Rejects, notBefore, equal, holds]

theorem done_endOfText_iff {start stop : Cursor} {result : Unit} :
    endOfText.run start = .done result stop ↔ start = stop ∧ start.rest = [] := by
  cases equal : start.rest <;> simp [endOfText, equal]

/-! ## Places -/

theorem done_offset_iff {start stop : Cursor} {result : Nat} :
    offset.run start = .done result stop ↔ start.offset = result ∧ start = stop := by
  simp [offset]

theorem done_textOf_iff {parser : Parser α} {start stop : Cursor} {result : List Char} :
    (textOf parser).run start = .done result stop ↔
      start.Reads result stop ∧ ∃ value, parser.run start = .done value stop := by
  have reaches := parser.reaches start
  cases equal : parser.run start with
  | done value middle =>
      rw [equal] at reaches
      rcases reaches with ⟨text, reads⟩
      simp only [textOf, equal, Reply.done.injEq]
      constructor
      · rintro ⟨rfl, rfl⟩
        have readsText : start.Reads text middle := reads
        exact ⟨by rwa [Cursor.textTo_eq readsText], value, rfl, rfl⟩
      · rintro ⟨readsResult, _, _, rfl⟩
        exact ⟨Cursor.textTo_eq readsResult, rfl⟩
  | rejected failure => simp [textOf, equal]
  | aborted failure => simp [textOf, equal]

end Parser
end PermissionTypes.Schema
