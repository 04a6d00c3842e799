import PermissionTypes.Proofs.Schema.Lookahead

/-! Lists are read exactly where the grammar spells them, if their members are: lists with
separators between the members, and lists with trivia around them. -/

namespace PermissionTypes.Schema

open Schema.Parser
open Trivia (isBlank Absent)

/-! ## Separators -/

/-- The parser reads what the grammar puts before something solid. -/
structure IsSeparator (separator : Parser Unit) (spelling : Spelling) : Prop where
  spells : ∀ ⦃start stop⦄, separator.run start = .done () stop → Solid stop.rest →
    start.Spells spelling stop
  run : ∀ ⦃start stop : Cursor⦄, start.Spells spelling stop → Solid stop.rest →
    separator.run start = .done () stop
  moves : ∀ ⦃start stop : Cursor⦄, start.Spells spelling stop → start.offset < stop.offset

structure IsSign (character : Char) : Prop where
  notWord : isWordCharacter character = false
  notBlank : isBlank character = false
  notSlash : character ≠ '/'

theorem IsSign.solid {sign : Char} (isSign : IsSign sign) {start stop : Cursor}
    (spells : start.Spells (Grammar.sign sign) stop) : Solid start.rest :=
  solid_of_spells_exactly spells isSign.notBlank isSign.notSlash

def signBetween (sign : Char) : Parser Unit := do
  trivia
  character sign
  trivia

theorem isSeparator_sign {sign : Char} (isSign : IsSign sign) :
    IsSeparator (signBetween sign) (Grammar.between sign) where
  spells start stop equal solid := by
    rcases done_bind_iff.mp equal with ⟨_, _, front, equal⟩
    rcases done_bind_iff.mp equal with ⟨_, _, signEqual, back⟩
    have signSpells := (done_character_iff_spells isSign.notWord).mp signEqual
    have frontSpells := (spells_of_done_trivia front (isSign.solid signSpells).ne_nil).1
    exact (frontSpells.append signSpells).append (spells_of_done_trivia back solid.ne_nil).1
  run start stop spells solid := by
    simp only [Grammar.between, Cursor.spells_append_iff] at spells
    rcases spells with ⟨_, ⟨_, front, signSpells⟩, back⟩
    refine (run_bind_of_done (run_trivia front (isSign.solid signSpells).absent)).trans ?_
    refine (run_bind_of_done ((done_character_iff_spells isSign.notWord).mpr signSpells)).trans ?_
    exact run_trivia back solid.absent
  moves start stop spells := by
    simp only [Grammar.between, Cursor.spells_append_iff] at spells
    rcases spells with ⟨_, ⟨_, front, signSpells⟩, back⟩
    have moved := signSpells.moves (by simp)
    have frontMoves := front.reaches.offset_le
    have backMoves := back.reaches.offset_le
    omega

theorem rejects_signBetween {sign : Char} {start : Cursor}
    (faces : start.Faces (NotAmong [sign])) : (signBetween sign).Rejects start := by
  rcases faces with ⟨next, spells, absent, notAmong⟩
  refine Rejects.bind_right (run_trivia spells absent) (Rejects.bind_left ?_ _)
  refine rejects_character_iff.mpr fun found member equal => ?_
  exact notAmong found member (List.mem_singleton.mpr equal)

/-- A sign is faced before the trivia in front of it. -/
theorem faces_of_spells_between {sign : Char} (isSign : IsSign sign) {start stop : Cursor}
    (spells : start.Spells (Grammar.between sign) stop) {ends : List Char → Prop}
    (endsBeforeSign : ∀ rest, ends (sign :: rest)) : start.Faces ends := by
  simp only [Grammar.between, Cursor.spells_append_iff] at spells
  rcases spells with ⟨middle, ⟨_, front, signSpells⟩, _⟩
  refine ⟨_, front, (isSign.solid signSpells).absent, ?_⟩
  rw [head_of_spells_sign signSpells]
  exact endsBeforeSign _

/-! ## Lists with separators -/

section Separated

variable {separator : Parser Unit} {between : Spelling} {member : Parser α}
  {spelling : α → Spelling}

theorem of_done_separated (isSeparator : IsSeparator separator between) (holds : α → Prop)
    (spelling : α → Spelling)
    (sound : ∀ ⦃value start stop⦄, member.run start = .done value stop →
      holds value ∧ start.Spells (spelling value) stop ∧ Solid start.rest)
    {values : List α} {start stop : Cursor}
    (equal : (separated separator member).run start = .done values stop) :
    values ≠ [] ∧ (∀ value ∈ values, holds value) ∧
      start.Spells (.separated between spelling values) stop ∧ Solid start.rest := by
  rcases done_bind_iff.mp equal with ⟨first, middle, firstEqual, equal⟩
  rcases done_bind_iff.mp equal with ⟨more, last, moreEqual, result⟩
  rcases done_pure_iff.mp result with ⟨rfl, rfl⟩
  rcases sound firstEqual with ⟨firstHolds, firstSpells, solid⟩
  have moreHolds : ∀ value ∈ more, holds value := by
    refine all_of_many (fun equal => ?_) moreEqual
    rcases done_bind_iff.mp equal with ⟨_, _, _, valueEqual⟩
    exact (sound valueEqual).1
  have moreSpells :
      middle.Spells (.each (fun value => between ++ spelling value) more) last := by
    refine spells_of_many (fun equal => ?_) moreEqual
    rcases done_bind_iff.mp equal with ⟨_, _, separatorEqual, valueEqual⟩
    rcases sound valueEqual with ⟨_, valueSpells, valueSolid⟩
    exact (isSeparator.spells separatorEqual valueSolid).append valueSpells
  refine ⟨List.cons_ne_nil first more, ?_, firstSpells.append moreSpells, solid⟩
  exact List.forall_mem_cons.mpr ⟨firstHolds, moreHolds⟩

/-- What can follow a member is a separator or what follows the list. -/
theorem run_separated (isSeparator : IsSeparator separator between) (holds : α → Prop)
    (follows : Cursor → Prop)
    (complete : ∀ ⦃value start stop⦄, holds value → start.Spells (spelling value) stop →
      follows stop → member.run start = .done value stop ∧ Solid start.rest)
    (beforeSeparator : ∀ ⦃start stop⦄, start.Spells between stop → Solid stop.rest →
      follows start)
    {values : List α} (notNil : values ≠ []) (all : ∀ value ∈ values, holds value)
    {start stop : Cursor} (spells : start.Spells (.separated between spelling values) stop)
    (ends : follows stop) (rejects : separator.Rejects stop) :
    (separated separator member).run start = .done values stop ∧ Solid start.rest := by
  cases values with
  | nil => exact absurd rfl notNil
  | cons first more =>
      rcases List.forall_mem_cons.mp all with ⟨firstHolds, moreHolds⟩
      rcases Cursor.spells_append_iff.mp spells with ⟨middle, firstSpells, moreSpells⟩
      have next : ∀ value ∈ more, ∀ ⦃start stop : Cursor⦄,
          start.Spells (between ++ spelling value) stop → follows stop →
          (do separator; member).run start = .done value stop ∧ start.offset < stop.offset ∧
            follows start := by
        intro value found start stop spells followsStop
        rcases Cursor.spells_append_iff.mp spells with ⟨_, separatorSpells, valueSpells⟩
        rcases complete (moreHolds value found) valueSpells followsStop with ⟨equal, solid⟩
        have moved := isSeparator.moves separatorSpells
        have valueMoves := valueSpells.reaches.offset_le
        refine ⟨?_, by omega, beforeSeparator separatorSpells solid⟩
        exact (run_bind_of_done (isSeparator.run separatorSpells solid)).trans equal
      rcases run_many_of_links follows next (links_of_spells moreSpells) ends
        (rejects.bind_left _) with
        ⟨moreEqual, followsFirst⟩
      rcases complete firstHolds firstSpells followsFirst with ⟨firstEqual, solid⟩
      exact ⟨(run_bind_of_done firstEqual).trans (run_bind_of_done moreEqual), solid⟩

end Separated

/-! ## Lists with trivia -/

def entries (entry : Parser α) : Parser (List α) :=
  many do
    let value ← entry
    trivia
    pure value

theorem all_of_entries {entry : Parser α} {holds : α → Prop}
    (all : ∀ {value start stop}, entry.run start = .done value stop → holds value)
    {start stop : Cursor} {values : List α}
    (equal : (entries entry).run start = .done values stop) : ∀ value ∈ values, holds value := by
  refine all_of_many (fun equal => ?_) equal
  rcases done_bind_iff.mp equal with ⟨_, _, valueEqual, equal⟩
  rcases done_bind_iff.mp equal with ⟨_, _, _, result⟩
  rcases done_pure_iff.mp result with ⟨rfl, _⟩
  exact all valueEqual

theorem rest_ne_nil_of_moved {start stop : Cursor} (reaches : start.Reaches stop)
    (moved : start.offset < stop.offset) : start.rest ≠ [] := by
  rcases reaches with ⟨text, reads⟩
  intro atEnd
  have nothing := reads.rest_eq
  rw [atEnd, eq_comm, List.append_eq_nil_iff] at nothing
  have stays := reads.offset_eq
  rw [nothing.1, Text.byteLength_nil] at stays
  omega

section Entries

variable {entry : Parser α} {spelling : α → Spelling}

/-- Only at the end of the whole text the last trivia can be an open comment. -/
theorem of_done_entries
    (sound : ∀ ⦃value start stop⦄, entry.run start = .done value stop →
      start.Spells (spelling value) stop)
    {values : List α} {first start stop : Cursor} (front : trivia.run first = .done () start)
    (equal : (entries entry).run start = .done values stop) :
    ∃ middle,
      first.Spells (Grammar.trivia ++ .each (fun value => spelling value ++ Grammar.trivia) values)
        middle ∧
      middle.Spells (.language Grammar.IsOpenComment) stop ∧
      (middle = stop ∨ stop.rest = []) := by
  refine many_induction (motive := fun start values stop => ∀ first : Cursor,
    trivia.run first = .done () start → ∃ middle,
      first.Spells (Grammar.trivia ++ .each (fun value => spelling value ++ Grammar.trivia) values)
        middle ∧
      middle.Spells (.language Grammar.IsOpenComment) stop ∧
      (middle = stop ∨ stop.rest = [])) ?_ ?_ start equal first front
  · intro cursor _ first front
    rcases of_done_trivia front with ⟨_, middle, spells, openComment, ends⟩
    exact ⟨middle, spells.append (Cursor.spells_exactly_nil_iff.mpr rfl), openComment, ends⟩
  · intro start next stop value values stepEqual moved _ induction first front
    have inside := rest_ne_nil_of_moved (reaches_of_done stepEqual) moved
    rcases done_bind_iff.mp stepEqual with ⟨_, behind, valueEqual, stepEqual⟩
    rcases done_bind_iff.mp stepEqual with ⟨_, _, back, result⟩
    rcases done_pure_iff.mp result with ⟨rfl, rfl⟩
    rcases induction behind back with ⟨middle, spells, openComment, ends⟩
    rcases Cursor.spells_append_iff.mp spells with ⟨_, backSpells, moreSpells⟩
    have frontSpells := (spells_of_done_trivia front inside).1
    exact ⟨middle, frontSpells.append (((sound valueEqual).append backSpells).append moreSpells),
      openComment, ends⟩

/-- What follows a member is only known when the members behind it have been read. -/
theorem run_entries {holds : α → Prop} (follows : Cursor → Prop)
    (complete : ∀ ⦃value start stop⦄, holds value → start.Spells (spelling value) stop →
      follows stop → entry.run start = .done value stop ∧ Solid start.rest ∧
        start.offset < stop.offset ∧
        ∀ before : Cursor, before.Spells Grammar.trivia start → follows before)
    {values : List α} (all : ∀ value ∈ values, holds value) {middle stop : Cursor}
    (ends : ∀ before : Cursor, before.Spells Grammar.trivia middle →
      trivia.run before = .done () stop ∧ follows before)
    (rejects : entry.Rejects stop) {first : Cursor}
    (spells : first.Spells
      (Grammar.trivia ++ .each (fun value => spelling value ++ Grammar.trivia) values) middle) :
    ∃ start, trivia.run first = .done () start ∧
      (entries entry).run start = .done values stop ∧ follows first := by
  rcases Cursor.spells_append_iff.mp spells with ⟨start, front, spells⟩
  induction values generalizing first start with
  | nil =>
      obtain rfl := Cursor.spells_exactly_nil_iff.mp spells
      rcases ends first front with ⟨frontEqual, followsFirst⟩
      exact ⟨stop, frontEqual, run_many_of_rejects (rejects.bind_left _), followsFirst⟩
  | cons value values induction =>
      rcases List.forall_mem_cons.mp all with ⟨valueHolds, valuesHold⟩
      simp only [Spelling.each, Cursor.spells_append_iff] at spells
      rcases spells with ⟨next, ⟨behind, valueSpells, back⟩, moreSpells⟩
      -- The rest is read first: it says what follows this value.
      rcases induction valuesHold (back.append moreSpells) next back moreSpells with
        ⟨backStop, backEqual, moreEqual, followsValue⟩
      rcases complete valueHolds valueSpells followsValue with
        ⟨valueEqual, solid, moved, followsFirst⟩
      have backMoves := (reaches_of_done backEqual).offset_le
      refine ⟨start, run_trivia front solid.absent, ?_, followsFirst first front⟩
      have equal : (entry >>= fun value => trivia >>= fun _ => pure value).run start =
          .done value backStop :=
        (run_bind_of_done valueEqual).trans (run_bind_of_done backEqual)
      exact run_many_of_done equal (by omega) moreEqual

end Entries

end PermissionTypes.Schema
