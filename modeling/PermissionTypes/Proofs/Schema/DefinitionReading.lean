import PermissionTypes.Proofs.Schema.ExpressionReading
import PermissionTypes.Proofs.Schema.ListReading
import PermissionTypes.Schema.Definition

/-! Definitions are read exactly where the grammar spells them. -/

namespace PermissionTypes.Schema

open Schema.Parser
open Trivia (isBlank Absent)
open Grammar (IsIdentifier IsPath)

theorem isSign_bar : IsSign '|' :=
  ⟨rfl, rfl, by decide⟩

theorem pathEnds_of_notAmong {rest : List Char} (notAmong : NotAmong ['/'] rest) :
    PathEnds rest := by
  rintro next ⟨more, rfl⟩
  exact absurd (List.mem_singleton.mpr rfl) (notAmong '/' rfl)

theorem rejects_keyword_of_notAmong {word : String} {first : Char}
    (begins : word.toList.head? = some first) {start : Cursor}
    (notAmong : NotAmong [first] start.rest) : (keyword word).Rejects start := by
  apply rejects_keyword
  rintro ⟨behind, equal⟩
  refine notAmong first ?_ (List.mem_singleton.mpr rfl)
  rw [← equal, List.head?_append, begins]
  rfl

/-! ## Subjects -/

theorem of_done_subject {read : Subject} {start stop : Cursor}
    (equal : subject.run start = .done read stop) :
    read.WellShaped ∧ start.Spells (Grammar.subject read) stop := by
  rcases done_bind_iff.mp equal with ⟨written, last, writtenEqual, result⟩
  rcases done_pure_iff.mp result with ⟨rfl, rfl⟩
  rcases done_perhaps_iff.mp writtenEqual with ⟨value, rfl, valueEqual⟩ | ⟨rfl, _, rfl⟩
  · rcases done_orElse_iff.mp valueEqual with valueEqual | ⟨_, valueEqual⟩
    · rcases done_bind_iff.mp valueEqual with ⟨_, _, sign, result⟩
      rcases done_pure_iff.mp result with ⟨rfl, rfl⟩
      exact ⟨trivial, (done_exactly_iff.mp sign).spells rfl⟩
    · rcases done_bind_iff.mp valueEqual with ⟨_, _, sign, equal⟩
      rcases done_bind_iff.mp equal with ⟨name, _, nameEqual, result⟩
      rcases done_pure_iff.mp result with ⟨rfl, rfl⟩
      rcases done_named_identifier_iff.mp (done_commit_iff.mp nameEqual) with
        ⟨isIdentifier, nameSpells⟩
      exact ⟨isIdentifier, ((done_character_iff_spells rfl).mp sign).append nameSpells⟩
  · exact ⟨trivial, Cursor.spells_exactly_nil_iff.mpr rfl⟩

/-- Plain objects of a type are read where nothing says otherwise. -/
theorem run_subject {written : Subject} (shaped : written.WellShaped) {start stop : Cursor}
    (spells : start.Spells (Grammar.subject written) stop)
    (ends : NotAmong [':', '#'] stop.rest) : subject.run start = .done written stop := by
  cases written with
  | object =>
      obtain rfl := Cursor.spells_exactly_nil_iff.mp spells
      have noEveryone : (exactly [':', '*']).Rejects stop := by
        apply rejects_exactly_iff.mpr
        rintro ⟨more, equal⟩
        refine ends ':' ?_ (by simp)
        rw [← equal]
        rfl
      have noRelation : (character '#').Rejects stop := by
        apply rejects_character_iff.mpr
        rintro found member rfl
        exact ends '#' member (by simp)
      refine run_bind_of_done (done_perhaps_iff.mpr (.inr ⟨rfl, ?_, rfl⟩))
      exact (noEveryone.bind_left _).orElse (noRelation.bind_left _)
  | everyone =>
      refine run_bind_of_done (done_perhaps_iff.mpr (.inl ⟨Subject.everyone, rfl, ?_⟩))
      have sign := run_exactly (Cursor.spells_exactly_iff.mp spells).1
      exact done_orElse_iff.mpr (.inl (run_bind_of_done sign))
  | relation name =>
      rcases Cursor.spells_append_iff.mp spells with ⟨_, sign, nameSpells⟩
      have noEveryone : (exactly [':', '*']).Rejects start := by
        apply rejects_exactly_iff.mpr
        rw [head_of_spells_sign sign]
        simp
      refine run_bind_of_done (done_perhaps_iff.mpr (.inl ⟨Subject.relation name, rfl, ?_⟩))
      refine (run_orElse_of_rejects (noEveryone.bind_left _) _).trans ?_
      refine (run_bind_of_done ((done_character_iff_spells rfl).mpr sign)).trans ?_
      exact run_bind_of_done
        (done_commit_iff.mpr (done_named_identifier_iff.mpr ⟨shaped, nameSpells⟩))

/-! ## Traits -/

def keywordBetween (word : String) : Parser Unit := do
  gap
  keyword word
  gap

theorem isSeparator_and : IsSeparator (keywordBetween "and")
    (Grammar.gap ++ Grammar.word "and" ++ Grammar.gap) where
  spells start stop equal solid := by
    rcases done_bind_iff.mp equal with ⟨_, _, front, equal⟩
    rcases done_bind_iff.mp equal with ⟨_, _, word, back⟩
    have wordSpells := (done_keyword_iff rfl).mp word
    have wordSolid := solid_of_spells_exactly wordSpells rfl (by decide)
    exact ((spells_of_done_gap front wordSolid.ne_nil).1.append wordSpells).append
      (spells_of_done_gap back solid.ne_nil).1
  run start stop spells solid := by
    simp only [Cursor.spells_append_iff] at spells
    rcases spells with ⟨_, ⟨_, front, word⟩, back⟩
    have wordSolid := solid_of_spells_exactly word rfl (by decide)
    refine (run_bind_of_done (run_gap_of_spells front wordSolid.absent)).trans ?_
    refine (run_bind_of_done ((done_keyword_iff rfl).mpr word)).trans ?_
    exact run_gap_of_spells back solid.absent
  moves start stop spells := by
    simp only [Cursor.spells_append_iff] at spells
    rcases spells with ⟨_, ⟨_, front, word⟩, back⟩
    have moved := word.moves (by simp)
    have frontMoves := front.reaches.offset_le
    have backMoves := back.reaches.offset_le
    omega

/-- A gap is given back where the keyword does not follow it. -/
theorem rejects_gap_keyword {word : String} {first : Char}
    (begins : word.toList.head? = some first) (next : Unit → Parser α) {start : Cursor}
    (faces : start.Faces (NotAmong [first])) :
    (gap >>= fun _ => keyword word >>= next).Rejects start := by
  by_cases absent : Absent start.rest
  · exact (rejects_gap absent).bind_left _
  · rcases faces with ⟨behind, spells, absentBehind, notAmong⟩
    have gapEqual := (run_gap absent).trans (run_trivia spells absentBehind)
    exact Rejects.bind_right gapEqual
      ((rejects_keyword_of_notAmong begins notAmong).bind_left _)

/-- What can follow a type of subjects: nothing that says more about it. -/
def EndsSubjectType (rest : List Char) : Prop :=
  NotAmong ['w', 'a', ':', '#', '/'] rest

theorem of_done_traits {read : List Name} {start stop : Cursor}
    (equal : traits.run start = .done read stop) :
    (∀ trait ∈ read, IsPath trait.text.toList) ∧ start.Spells (Grammar.traits read) stop := by
  rcases done_bind_iff.mp equal with ⟨written, _, writtenEqual, result⟩
  rcases done_pure_iff.mp result with ⟨rfl, rfl⟩
  rcases done_perhaps_iff.mp writtenEqual with ⟨values, rfl, listEqual⟩ | ⟨rfl, _, rfl⟩
  · rcases done_bind_iff.mp listEqual with ⟨_, _, front, equal⟩
    rcases done_bind_iff.mp equal with ⟨_, _, word, equal⟩
    rcases done_bind_iff.mp equal with ⟨_, _, back, equal⟩
    have wordSpells := (done_keyword_iff rfl).mp word
    have wordSolid := solid_of_spells_exactly wordSpells rfl (by decide)
    rcases of_done_separated isSeparator_and (fun name => IsPath name.text.toList) .name
      (fun _ _ _ equal => ⟨(of_done_named_typeName equal).1, (of_done_named_typeName equal).2,
        solid_of_spells_name (of_done_named_typeName equal).1.head
          (of_done_named_typeName equal).2⟩)
      (done_commit_iff.mp equal) with ⟨notNil, paths, spells, solid⟩
    refine ⟨paths, ?_⟩
    cases values with
    | nil => exact absurd rfl notNil
    | cons first more =>
        exact (((spells_of_done_gap front wordSolid.ne_nil).1.append wordSpells).append
          (spells_of_done_gap back solid.ne_nil).1).append spells
  · exact ⟨fun _ impossible => absurd impossible List.not_mem_nil,
      Cursor.spells_exactly_nil_iff.mpr rfl⟩

/-- Behind the subjects of a type comes a gap with traits, or what follows the whole. -/
theorem faces_of_spells_traits {written : List Name} {start stop : Cursor}
    (spells : start.Spells (Grammar.traits written) stop) (faces : stop.Faces EndsSubjectType) :
    start.Faces (NotAmong [':', '#', '/']) := by
  cases written with
  | nil =>
      obtain rfl := Cursor.spells_exactly_nil_iff.mp spells
      exact faces.mono fun _ ends => ends.subset (by simp)
  | cons first more =>
      simp only [Grammar.traits, Cursor.spells_append_iff] at spells
      rcases spells with ⟨_, ⟨_, ⟨_, front, word⟩, _⟩, _⟩
      have wordSolid := solid_of_spells_exactly word rfl (by decide)
      refine ⟨_, (spells_gap_iff.mp front).1, wordSolid.absent, ?_⟩
      rw [head_of_spells_exactly word]
      exact .cons (by decide)

theorem run_traits {written : List Name} (paths : ∀ trait ∈ written, IsPath trait.text.toList)
    {start stop : Cursor} (spells : start.Spells (Grammar.traits written) stop)
    (faces : stop.Faces EndsSubjectType) : traits.run start = .done written stop := by
  cases written with
  | nil =>
      obtain rfl := Cursor.spells_exactly_nil_iff.mp spells
      have notWith : stop.Faces (NotAmong ['w']) :=
        faces.mono fun _ ends => ends.subset (by simp)
      exact run_bind_of_done
        (done_perhaps_iff.mpr (.inr ⟨rfl, rejects_gap_keyword rfl _ notWith, rfl⟩))
  | cons first more =>
      simp only [Grammar.traits, Cursor.spells_append_iff] at spells
      rcases spells with ⟨_, ⟨_, ⟨_, front, word⟩, back⟩, names⟩
      have wordSolid := solid_of_spells_exactly word rfl (by decide)
      -- No path goes on before `and`, since a slash would have to follow at once.
      have beforeAnd : ∀ ⦃start stop : Cursor⦄,
          start.Spells (Grammar.gap ++ Grammar.word "and" ++ Grammar.gap) stop →
          Solid stop.rest → start.Faces (NotAmong ['/']) := by
        intro start stop separator _
        simp only [Cursor.spells_append_iff] at separator
        rcases separator with ⟨_, ⟨_, gapSpells, andSpells⟩, _⟩
        have andSolid := solid_of_spells_exactly andSpells rfl (by decide)
        refine ⟨_, (spells_gap_iff.mp gapSpells).1, andSolid.absent, ?_⟩
        rw [head_of_spells_exactly andSpells]
        exact .cons (by decide)
      have notAnd : stop.Faces (NotAmong ['a']) :=
        faces.mono fun _ ends => ends.subset (by simp)
      have noAnd : (keywordBetween "and").Rejects stop := rejects_gap_keyword rfl _ notAnd
      rcases run_separated isSeparator_and (fun name => IsPath name.text.toList)
        (fun cursor => cursor.Faces (NotAmong ['/']))
        (fun _ _ _ isPath spells faces =>
          ⟨run_named_typeName isPath spells (faces.pathEnds fun _ holds => holds),
            solid_of_spells_name isPath.head spells⟩)
        beforeAnd (List.cons_ne_nil first more) paths names
        (faces.mono fun _ ends => ends.subset (by simp)) noAnd with ⟨namesEqual, solid⟩
      refine run_bind_of_done (done_perhaps_iff.mpr (.inl ⟨_, rfl, ?_⟩))
      refine (run_bind_of_done (run_gap_of_spells front wordSolid.absent)).trans ?_
      refine (run_bind_of_done ((done_keyword_iff rfl).mpr word)).trans ?_
      refine (run_bind_of_done (run_gap_of_spells back solid.absent)).trans ?_
      exact done_commit_iff.mpr namesEqual

/-! ## Types of subjects -/

theorem of_done_subjectType {read : SubjectType} {start stop : Cursor}
    (equal : subjectType.run start = .done read stop) :
    read.WellShaped ∧ start.Spells (Grammar.subjectType read) stop ∧ Solid start.rest := by
  rcases done_bind_iff.mp (done_within_iff.mp equal) with ⟨type, _, typeEqual, equal⟩
  rcases done_bind_iff.mp equal with ⟨subject, _, subjectEqual, equal⟩
  rcases done_bind_iff.mp equal with ⟨traits, _, traitsEqual, result⟩
  rcases done_pure_iff.mp result with ⟨rfl, rfl⟩
  rcases of_done_named_typeName typeEqual with ⟨isPath, typeSpells⟩
  rcases of_done_subject subjectEqual with ⟨subjectShaped, subjectSpells⟩
  rcases of_done_traits traitsEqual with ⟨paths, traitsSpells⟩
  exact ⟨⟨isPath, subjectShaped, paths⟩, (typeSpells.append subjectSpells).append traitsSpells,
    solid_of_spells_name isPath.head typeSpells⟩

theorem pathEnds_of_spells_subject {written : Subject} {start stop : Cursor}
    (spells : start.Spells (Grammar.subject written) stop)
    (faces : stop.Faces (NotAmong [':', '#', '/'])) : PathEnds start.rest := by
  cases written with
  | object =>
      obtain rfl := Cursor.spells_exactly_nil_iff.mp spells
      exact faces.pathEnds fun _ holds => holds.subset (by simp)
  | everyone =>
      apply pathEnds_of_notAmong
      rw [head_of_spells_exactly spells]
      exact .cons (by decide)
  | relation name =>
      rcases Cursor.spells_append_iff.mp spells with ⟨_, sign, _⟩
      apply pathEnds_of_notAmong
      rw [head_of_spells_sign sign]
      exact .cons (by decide)

theorem run_subjectType {written : SubjectType} (shaped : written.WellShaped)
    {start stop : Cursor} (spells : start.Spells (Grammar.subjectType written) stop)
    (faces : stop.Faces EndsSubjectType) :
    subjectType.run start = .done written stop ∧ Solid start.rest := by
  simp only [Grammar.subjectType, Cursor.spells_append_iff] at spells
  rcases spells with ⟨behindSubject, ⟨_, typeSpells, subjectSpells⟩, traitsSpells⟩
  have facesTraits := faces_of_spells_traits traitsSpells faces
  have notSign : NotAmong [':', '#'] behindSubject.rest := by
    intro found member isSign
    rcases List.mem_cons.mp isSign with rfl | isSign
    · exact facesTraits.head_ne (fun _ holds => holds.subset (by simp)) rfl (by decide)
        _ member rfl
    · obtain rfl := List.mem_singleton.mp isSign
      exact facesTraits.head_ne (fun _ holds => holds.subset (by simp)) rfl (by decide)
        _ member rfl
  have typeEqual := run_named_typeName shaped.type typeSpells
    (pathEnds_of_spells_subject subjectSpells facesTraits)
  refine ⟨done_within_iff.mpr ?_, solid_of_spells_name shaped.type.head typeSpells⟩
  refine (run_bind_of_done typeEqual).trans ?_
  refine (run_bind_of_done (run_subject shaped.subject subjectSpells notSign)).trans ?_
  exact run_bind_of_done (run_traits shaped.traits traitsSpells faces)

/-! ## Members -/

/-- What can follow a member: another one, or the end of the definition. -/
def EndsMember (rest : List Char) : Prop :=
  ∃ first more, rest = first :: more ∧ first ∈ ['r', 'p', '}']

namespace EndsMember

theorem notAmong {rest characters : List Char} (ends : EndsMember rest)
    (other : ∀ character ∈ ['r', 'p', '}'], character ∉ characters) : NotAmong characters rest := by
  rcases ends with ⟨first, more, rfl, member⟩
  exact .cons (other first member)

theorem solid {rest : List Char} (ends : EndsMember rest) : Solid rest := by
  rcases ends with ⟨first, more, rfl, member⟩
  simp only [List.mem_cons, List.not_mem_nil, or_false] at member
  rcases member with rfl | rfl | rfl
  · exact ⟨_, more, rfl, rfl, by decide⟩
  · exact ⟨_, more, rfl, rfl, by decide⟩
  · exact ⟨_, more, rfl, rfl, by decide⟩

end EndsMember

theorem of_done_relation {read : Member} {start stop : Cursor}
    (equal : relation.run start = .done read stop) :
    read.WellShaped ∧ start.Spells (Grammar.member read) stop := by
  rcases done_bind_iff.mp equal with ⟨_, _, word, equal⟩
  have inner := done_within_iff.mp (done_commit_iff.mp equal)
  rcases done_bind_iff.mp inner with ⟨_, _, gapEqual, equal⟩
  rcases done_bind_iff.mp equal with ⟨name, _, nameEqual, equal⟩
  rcases done_bind_iff.mp equal with ⟨_, _, front, equal⟩
  rcases done_bind_iff.mp equal with ⟨_, _, colon, equal⟩
  rcases done_bind_iff.mp equal with ⟨_, _, back, equal⟩
  rcases done_bind_iff.mp equal with ⟨types, _, typesEqual, result⟩
  rcases done_pure_iff.mp result with ⟨rfl, rfl⟩
  have wordSpells := (done_keyword_iff rfl).mp word
  rcases done_named_identifier_iff.mp nameEqual with ⟨isIdentifier, nameSpells⟩
  have colonSpells := (done_character_iff_spells rfl).mp colon
  rcases of_done_separated (isSeparator_sign isSign_bar) SubjectType.WellShaped
    Grammar.subjectType (fun _ _ _ equal => of_done_subjectType equal) typesEqual with
    ⟨notNil, shaped, typesSpells, typesSolid⟩
  have nameSolid := solid_of_spells_name isIdentifier.head nameSpells
  have colonSolid := solid_of_spells_exactly colonSpells rfl (by decide)
  have between := ((spells_of_done_trivia front colonSolid.ne_nil).1.append colonSpells).append
    (spells_of_done_trivia back typesSolid.ne_nil).1
  refine ⟨⟨isIdentifier, notNil, shaped⟩, ?_⟩
  exact (((wordSpells.append (spells_of_done_gap gapEqual nameSolid.ne_nil).1).append
    nameSpells).append between).append typesSpells

theorem run_relation {name : Name} {types : List SubjectType}
    (shaped : (Member.relation name types).WellShaped) {start stop : Cursor}
    (spells : start.Spells (Grammar.member (.relation name types)) stop)
    (faces : stop.Faces EndsMember) : relation.run start = .done (.relation name types) stop := by
  rcases shaped with ⟨isIdentifier, notNil, typesShaped⟩
  simp only [Grammar.member, Grammar.between, Cursor.spells_append_iff] at spells
  rcases spells with ⟨_, ⟨_, ⟨_, ⟨_, word, gapSpells⟩, nameSpells⟩, _, ⟨_, front, colon⟩, back⟩,
    typesSpells⟩
  have nameSolid := solid_of_spells_name isIdentifier.head nameSpells
  have colonSolid := solid_of_spells_exactly colon rfl (by decide)
  have endsType : stop.Faces EndsSubjectType :=
    faces.mono fun _ ends => ends.notAmong (by simp)
  have notBar : stop.Faces (NotAmong ['|']) :=
    faces.mono fun _ ends => ends.notAmong (by simp)
  rcases run_separated (isSeparator_sign isSign_bar) SubjectType.WellShaped
    (fun cursor => cursor.Faces EndsSubjectType)
    (fun _ _ _ shaped spells faces => run_subjectType shaped spells faces)
    (fun _ _ between _ => faces_of_spells_between isSign_bar between fun _ => .cons (by decide))
    notNil typesShaped typesSpells endsType (rejects_signBetween notBar) with
    ⟨typesEqual, typesSolid⟩
  refine (run_bind_of_done ((done_keyword_iff rfl).mpr word)).trans ?_
  refine done_commit_iff.mpr (done_within_iff.mpr ?_)
  refine (run_bind_of_done (run_gap_of_spells gapSpells nameSolid.absent)).trans ?_
  refine (run_bind_of_done (done_named_identifier_iff.mpr ⟨isIdentifier, nameSpells⟩)).trans ?_
  refine (run_bind_of_done (run_trivia front colonSolid.absent)).trans ?_
  refine (run_bind_of_done ((done_character_iff_spells rfl).mpr colon)).trans ?_
  refine (run_bind_of_done (run_trivia back typesSolid.absent)).trans ?_
  exact run_bind_of_done typesEqual

theorem of_done_permission {read : Member} {start stop : Cursor}
    (equal : permission.run start = .done read stop) :
    read.WellShaped ∧ start.Spells (Grammar.member read) stop := by
  rcases done_bind_iff.mp equal with ⟨_, _, word, equal⟩
  have inner := done_within_iff.mp (done_commit_iff.mp equal)
  rcases done_bind_iff.mp inner with ⟨_, _, gapEqual, equal⟩
  rcases done_bind_iff.mp equal with ⟨name, _, nameEqual, equal⟩
  rcases done_bind_iff.mp equal with ⟨_, _, front, equal⟩
  rcases done_bind_iff.mp equal with ⟨_, _, sign, equal⟩
  rcases done_bind_iff.mp equal with ⟨_, _, back, equal⟩
  rcases done_bind_iff.mp equal with ⟨permitted, _, permittedEqual, result⟩
  rcases done_pure_iff.mp result with ⟨rfl, rfl⟩
  have wordSpells := (done_keyword_iff rfl).mp word
  rcases done_named_identifier_iff.mp nameEqual with ⟨isIdentifier, nameSpells⟩
  have signSpells := (done_character_iff_spells rfl).mp sign
  rcases of_done_expression permittedEqual with ⟨shaped, permittedSpells, opens⟩
  have nameSolid := solid_of_spells_name isIdentifier.head nameSpells
  have signSolid := solid_of_spells_exactly signSpells rfl (by decide)
  have between := ((spells_of_done_trivia front signSolid.ne_nil).1.append signSpells).append
    (spells_of_done_trivia back opens.solid.ne_nil).1
  refine ⟨⟨isIdentifier, shaped⟩, ?_⟩
  exact (((wordSpells.append (spells_of_done_gap gapEqual nameSolid.ne_nil).1).append
    nameSpells).append between).append permittedSpells

theorem run_permission {name : Name} {permitted : Expression}
    (shaped : (Member.permission name permitted).WellShaped) {start stop : Cursor}
    (spells : start.Spells (Grammar.member (.permission name permitted)) stop)
    (faces : stop.Faces EndsMember) :
    permission.run start = .done (.permission name permitted) stop := by
  rcases shaped with ⟨isIdentifier, permittedShaped⟩
  simp only [Grammar.member, Grammar.between, Cursor.spells_append_iff] at spells
  rcases spells with ⟨_, ⟨_, ⟨_, ⟨_, word, gapSpells⟩, nameSpells⟩, _, ⟨_, front, sign⟩, back⟩,
    permittedSpells⟩
  have nameSolid := solid_of_spells_name isIdentifier.head nameSpells
  have signSolid := solid_of_spells_exactly sign rfl (by decide)
  have endsExpression : stop.Faces Expression.EndsExpression :=
    faces.mono fun _ ends => ends.notAmong (by simp)
  rcases run_expression_of_spells permittedShaped permittedSpells endsExpression with
    ⟨permittedEqual, opens⟩
  refine (run_bind_of_done ((done_keyword_iff rfl).mpr word)).trans ?_
  refine done_commit_iff.mpr (done_within_iff.mpr ?_)
  refine (run_bind_of_done (run_gap_of_spells gapSpells nameSolid.absent)).trans ?_
  refine (run_bind_of_done (done_named_identifier_iff.mpr ⟨isIdentifier, nameSpells⟩)).trans ?_
  refine (run_bind_of_done (run_trivia front signSolid.absent)).trans ?_
  refine (run_bind_of_done ((done_character_iff_spells rfl).mpr sign)).trans ?_
  refine (run_bind_of_done (run_trivia back opens.solid.absent)).trans ?_
  exact run_bind_of_done permittedEqual

theorem of_done_member {read : Member} {start stop : Cursor}
    (equal : member.run start = .done read stop) :
    read.WellShaped ∧ start.Spells (Grammar.member read) stop := by
  rcases done_orElse_iff.mp equal with equal | ⟨_, equal⟩
  · exact of_done_relation equal
  · exact of_done_permission equal

theorem rejects_relation {start : Cursor} (notAmong : NotAmong ['r'] start.rest) :
    relation.Rejects start :=
  (rejects_keyword_of_notAmong rfl notAmong).bind_left _

theorem rejects_member {start : Cursor} (notAmong : NotAmong ['r', 'p'] start.rest) :
    member.Rejects start := by
  have notPermission : NotAmong ['p'] start.rest := notAmong.subset (by simp)
  refine (rejects_relation (notAmong.subset (by simp))).orElse ?_
  exact (rejects_keyword_of_notAmong rfl notPermission).bind_left _

theorem beginsWith_relation (name : Name) (types : List SubjectType) :
    BeginsWith "relation" (Grammar.member (.relation name types)) :=
  .append (.append (.append (.append (.word _) _) _) _) _

theorem beginsWith_permission (name : Name) (permitted : Expression) :
    BeginsWith "permission" (Grammar.member (.permission name permitted)) :=
  .append (.append (.append (.append (.word _) _) _) _) _

theorem head_of_spells_member {written : Member} {start stop : Cursor}
    (spells : start.Spells (Grammar.member written) stop) :
    EndsMember start.rest ∧ start.offset < stop.offset := by
  cases written with
  | relation name types =>
      rcases (beginsWith_relation name types).head spells rfl with ⟨⟨rest, equal⟩, moved⟩
      exact ⟨⟨'r', rest, equal, by decide⟩, moved⟩
  | permission name permitted =>
      rcases (beginsWith_permission name permitted).head spells rfl with ⟨⟨rest, equal⟩, moved⟩
      exact ⟨⟨'p', rest, equal, by decide⟩, moved⟩

theorem run_member {written : Member} (shaped : written.WellShaped) {start stop : Cursor}
    (spells : start.Spells (Grammar.member written) stop) (faces : stop.Faces EndsMember) :
    member.run start = .done written stop := by
  cases written with
  | relation name types => exact done_orElse_iff.mpr (.inl (run_relation shaped spells faces))
  | permission name permitted =>
      rcases (beginsWith_permission name permitted).head spells rfl with ⟨⟨rest, equal⟩, _⟩
      have noRelation : relation.Rejects start := by
        apply rejects_relation
        rw [equal]
        exact .cons (by decide)
      exact (run_orElse_of_rejects noRelation _).trans (run_permission shaped spells faces)

/-! ## Items -/

theorem of_done_definition {read : Item} {start stop : Cursor}
    (equal : definition.run start = .done read stop) :
    read.WellShaped ∧ start.Spells (Grammar.item read) stop := by
  rcases done_bind_iff.mp equal with ⟨_, _, word, equal⟩
  have inner := done_within_iff.mp (done_commit_iff.mp equal)
  rcases done_bind_iff.mp inner with ⟨_, _, gapEqual, equal⟩
  rcases done_bind_iff.mp equal with ⟨name, _, nameEqual, equal⟩
  rcases done_bind_iff.mp equal with ⟨_, _, behindName, equal⟩
  rcases done_bind_iff.mp equal with ⟨_, _, opening, equal⟩
  rcases done_bind_iff.mp equal with ⟨_, _, front, equal⟩
  rcases done_bind_iff.mp equal with ⟨members, _, membersEqual, equal⟩
  rcases done_bind_iff.mp equal with ⟨_, _, closing, result⟩
  rcases done_pure_iff.mp result with ⟨rfl, rfl⟩
  have wordSpells := (done_keyword_iff rfl).mp word
  rcases of_done_named_typeName nameEqual with ⟨isPath, nameSpells⟩
  have openingSpells := (done_character_iff_spells rfl).mp opening
  have closingSpells := (done_character_iff_spells rfl).mp (done_within_iff.mp closing)
  have nameSolid := solid_of_spells_name isPath.head nameSpells
  have openingSolid := solid_of_spells_exactly openingSpells rfl (by decide)
  have closingSolid := solid_of_spells_exactly closingSpells rfl (by decide)
  have shaped := all_of_entries (fun equal => (of_done_member equal).1) membersEqual
  rcases of_done_entries (fun _ _ _ equal => (of_done_member equal).2) front membersEqual with
    ⟨middle, entriesSpell, _, rfl | atEnd⟩
  · rcases Cursor.spells_append_iff.mp entriesSpell with ⟨_, frontSpells, membersSpell⟩
    refine ⟨⟨isPath, shaped⟩, ?_⟩
    have between := ((spells_of_done_trivia behindName openingSolid.ne_nil).1.append
      openingSpells).append frontSpells
    exact ((((wordSpells.append (spells_of_done_gap gapEqual nameSolid.ne_nil).1).append
      nameSpells).append between).append membersSpell).append closingSpells
  · exact absurd atEnd closingSolid.ne_nil

theorem run_definition {written : Definition} (shaped : written.WellShaped) {start stop : Cursor}
    (spells : start.Spells (Grammar.item (.definition written)) stop) :
    definition.run start = .done (.definition written) stop := by
  simp only [Grammar.item, Grammar.between, Cursor.spells_append_iff] at spells
  rcases spells with ⟨last, ⟨_, ⟨_, ⟨_, ⟨_, word, gapSpells⟩, nameSpells⟩, _, ⟨_, behindName,
    opening⟩, front⟩, membersSpell⟩, closing⟩
  have nameSolid := solid_of_spells_name shaped.name.head nameSpells
  have openingSolid := solid_of_spells_exactly opening rfl (by decide)
  have closingSolid := solid_of_spells_exactly closing rfl (by decide)
  have nameFaces : Cursor.Faces _ (NotAmong ['/']) :=
    ⟨_, behindName, openingSolid.absent, by
      rw [head_of_spells_sign opening]
      exact .cons (by decide)⟩
  have nameEqual := run_named_typeName shaped.name nameSpells
    (nameFaces.pathEnds fun _ holds => holds)
  have ends : EndsMember last.rest := ⟨'}', _, head_of_spells_sign closing, by simp⟩
  have noMember : member.Rejects last := by
    apply rejects_member
    rw [head_of_spells_sign closing]
    exact .cons (by decide)
  -- A member is faced by the one before it, also through the trivia between them.
  have complete : ∀ ⦃entry : Member⦄ ⦃start stop : Cursor⦄, entry.WellShaped →
      start.Spells (Grammar.member entry) stop → stop.Faces EndsMember →
      member.run start = .done entry stop ∧ Solid start.rest ∧ start.offset < stop.offset ∧
        ∀ before : Cursor, before.Spells Grammar.trivia start → before.Faces EndsMember := by
    intro entry start stop shaped spells faces
    rcases head_of_spells_member spells with ⟨begins, moved⟩
    refine ⟨run_member shaped spells faces, begins.solid, moved, fun before front => ?_⟩
    exact ⟨start, front, begins.solid.absent, begins⟩
  rcases run_entries (fun cursor => cursor.Faces EndsMember) complete shaped.members
    (fun _ front => ⟨run_trivia front closingSolid.absent, _, front, closingSolid.absent, ends⟩)
    noMember (front.append membersSpell) with ⟨_, frontEqual, membersEqual, _⟩
  refine (run_bind_of_done ((done_keyword_iff rfl).mpr word)).trans ?_
  refine done_commit_iff.mpr (done_within_iff.mpr ?_)
  refine (run_bind_of_done (run_gap_of_spells gapSpells nameSolid.absent)).trans ?_
  refine (run_bind_of_done nameEqual).trans ?_
  refine (run_bind_of_done (run_trivia behindName openingSolid.absent)).trans ?_
  refine (run_bind_of_done ((done_character_iff_spells rfl).mpr opening)).trans ?_
  refine (run_bind_of_done frontEqual).trans ?_
  refine (run_bind_of_done membersEqual).trans ?_
  exact run_bind_of_done
    (done_within_iff.mpr ((done_character_iff_spells rfl).mpr closing))

end PermissionTypes.Schema
