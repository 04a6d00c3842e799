import PermissionTypes.Proofs.Schema.DefinitionReading
import PermissionTypes.Proofs.Schema.ExpressionBeginnings

/-! Where a definition cannot be read on, what has been read begins a definition. -/

namespace PermissionTypes.Schema

open Schema.Parser
open Spelling (anyOf Within)
open Grammar (IsPath anyIdentifier anyPath detached_trivia_append detached_gap_append)

/-! ## Subjects -/

namespace Grammar

def anySubject : Spelling :=
  anyOf Subject.WellShaped subject

theorem relation_within_anySubject : Within (sign '#' ++ anyIdentifier) anySubject := by
  apply Within.of_spells
  intro start stop spells
  simp only [anyIdentifier, Cursor.spells_append_iff, Cursor.spells_anyOf_iff] at spells
  rcases spells with ⟨_, sign, name, isIdentifier, nameSpells⟩
  exact Cursor.spells_anyOf_iff.mpr ⟨.relation name, isIdentifier, sign.append nameSpells⟩

theorem detached_anySubject : anySubject.Detached := by
  refine Spelling.detached_nothing.mono fun offset text spelled => ?_
  exact ⟨.object, trivial, spelled⟩

end Grammar

theorem readsAs_subject : subject.ReadsAs Grammar.anySubject :=
  fun read _ _ equal => Cursor.spells_anyOf_iff.mpr ⟨read, of_done_subject equal⟩

theorem completable_subject : subject.Completable Grammar.anySubject where
  viable := by
    have everyone : (do exactly [':', '*']; pure Subject.everyone).Viable Grammar.anySubject :=
      .of_stop (fun _ _ fails => stop_of_fails_exactly (fails_bind_pure_iff.mp fails)) _
    have relation := ((Completable.named_identifier.commit.bind_pure Subject.relation).sign_bind
      '#' rfl).mono Grammar.relation_within_anySubject
    exact (everyone.orElse relation.viable).perhaps.bind_pure (·.getD .object)
  possible := Grammar.detached_anySubject.possible

/-! ## Traits -/

theorem Parser.Completable.keywordBetween_bind {next : Parser α} {back : Spelling}
    (completable : next.Completable back) (word : String)
    (ends : word.toList.getLast?.any isWordCharacter = true) :
    (keywordBetween word >>= fun _ => next).Completable
      (Grammar.gap ++ Grammar.word word ++ Grammar.gap ++ back) := by
  rw [Spelling.append_assoc, Spelling.append_assoc]
  exact (completable.gap_bind.keyword_bind word ends
    (detached_gap_append completable.possible)).of_assoc.gap_bind.of_assoc

namespace Grammar

def anyTraits : Spelling :=
  anyOf (fun traits => ∀ trait ∈ traits, IsPath trait.text.toList) traits

def anyTraitNames : Spelling :=
  anyOf (fun names => names ≠ [] ∧ ∀ name ∈ names, IsPath name.text.toList)
    (.separated (gap ++ word "and" ++ gap) .name)

theorem names_within_anyTraits :
    Within (gap ++ (word "with" ++ (gap ++ anyTraitNames))) anyTraits := by
  apply Within.of_spells
  intro start stop spells
  simp only [anyTraitNames, Cursor.spells_append_iff, Cursor.spells_anyOf_iff] at spells
  rcases spells with ⟨_, front, _, word, _, back, names, ⟨notNil, paths⟩, namesSpell⟩
  refine Cursor.spells_anyOf_iff.mpr ⟨names, paths, ?_⟩
  cases names with
  | nil => exact absurd rfl notNil
  | cons first more => exact ((front.append word).append back).append namesSpell

theorem detached_anyTraits : anyTraits.Detached := by
  refine Spelling.detached_nothing.mono fun offset text spelled => ?_
  exact ⟨[], List.forall_mem_nil _, spelled⟩

end Grammar

theorem completable_traits : traits.Completable Grammar.anyTraits where
  viable := by
    have sound : ∀ ⦃name start stop⦄, (named typeName).run start = .done name stop →
        IsPath name.text.toList ∧ start.Spells (.name name) stop ∧ Solid start.rest := by
      intro name start stop equal
      rcases of_done_named_typeName equal with ⟨isPath, spells⟩
      exact ⟨isPath, spells, solid_of_spells_name isPath.head spells⟩
    have names := Completable.separated isSeparator_and sound Completable.named_typeName
      (Completable.named_typeName.keywordBetween_bind "and" rfl)
    have behindWith := names.commit.gap_bind
    have withNames := (behindWith.keyword_bind "with" rfl
      (detached_gap_append names.possible)).gap_bind
    exact ((withNames.mono Grammar.names_within_anyTraits).viable.perhaps).bind_pure (·.getD [])
  possible := Grammar.detached_anyTraits.possible

/-! ## Types of subjects -/

namespace Grammar

def anySubjectType : Spelling :=
  anyOf SubjectType.WellShaped subjectType

theorem parts_within_anySubjectType :
    Within (anyPath ++ (anySubject ++ anyTraits)) anySubjectType := by
  apply Within.of_spells
  intro start stop spells
  simp only [anyPath, anySubject, anyTraits, Cursor.spells_append_iff,
    Cursor.spells_anyOf_iff] at spells
  rcases spells with ⟨_, ⟨type, isPath, typeSpells⟩, _, ⟨subject, shaped, subjectSpells⟩, traits,
    paths, traitsSpells⟩
  exact Cursor.spells_anyOf_iff.mpr ⟨{ type, subject, traits }, ⟨isPath, shaped, paths⟩,
    (typeSpells.append subjectSpells).append traitsSpells⟩

end Grammar

theorem completable_subjectType : subjectType.Completable Grammar.anySubjectType := by
  have ends (type : Name) (subject : Subject) := completable_traits.bind_pure fun traits =>
    ({ type, subject, traits } : SubjectType)
  have behindType (type : Name) := completable_subject.bind readsAs_subject (ends type)
    Grammar.detached_anyTraits
  have parts := Completable.named_typeName.bind readsAs_named_typeName behindType
    (Grammar.detached_anySubject.append Grammar.detached_anyTraits)
  exact (parts.mono Grammar.parts_within_anySubjectType).within _

/-! ## Members -/

namespace Grammar

def anyMember : Spelling :=
  anyOf Member.WellShaped member

def anySubjectTypes : Spelling :=
  anyOf (fun types => types ≠ [] ∧ ∀ type ∈ types, type.WellShaped)
    (.separated (between '|') subjectType)

theorem relation_within_anyMember :
    Within (word "relation" ++ (gap ++ (anyIdentifier ++ (trivia ++ (sign ':' ++ (trivia ++
      anySubjectTypes)))))) anyMember := by
  apply Within.of_spells
  intro start stop spells
  simp only [anyIdentifier, anySubjectTypes, Cursor.spells_append_iff, Cursor.spells_anyOf_iff]
    at spells
  rcases spells with ⟨_, word, _, gap, _, ⟨name, isIdentifier, nameSpells⟩, _, front, _, colon, _,
    back, types, ⟨notNil, shaped⟩, typesSpell⟩
  refine Cursor.spells_anyOf_iff.mpr ⟨.relation name types, ⟨isIdentifier, notNil, shaped⟩, ?_⟩
  exact (((word.append gap).append nameSpells).append
    ((front.append colon).append back)).append typesSpell

theorem permission_within_anyMember :
    Within (word "permission" ++ (gap ++ (anyIdentifier ++ (trivia ++ (sign '=' ++ (trivia ++
      Expression.anyExpression)))))) anyMember := by
  apply Within.of_spells
  intro start stop spells
  simp only [anyIdentifier, Expression.anyExpression, Cursor.spells_append_iff,
    Cursor.spells_anyOf_iff] at spells
  rcases spells with ⟨_, word, _, gap, _, ⟨name, isIdentifier, nameSpells⟩, _, front, _, sign, _,
    back, permitted, shaped, permittedSpells⟩
  refine Cursor.spells_anyOf_iff.mpr ⟨.permission name permitted, ⟨isIdentifier, shaped⟩, ?_⟩
  exact (((word.append gap).append nameSpells).append
    ((front.append sign).append back)).append permittedSpells

end Grammar

theorem completable_relation : relation.Completable Grammar.anyMember := by
  have types := Completable.separated (isSeparator_sign isSign_bar)
    (fun _ _ _ equal => of_done_subjectType equal) completable_subjectType
    (completable_subjectType.signBetween_bind '|' rfl)
  have fromSign (name : Name) :=
    (types.bind_pure (Member.relation name)).trivia_bind.sign_bind ':' rfl
  have named := Completable.named_identifier.bind readsAs_named_identifier
    (fun name => (fromSign name).trivia_bind)
    (detached_trivia_append (fromSign default).possible)
  have behindWord := (named.gap_bind.within .relation).commit
  exact (behindWord.keyword_bind "relation" rfl (detached_gap_append named.possible)).mono
    Grammar.relation_within_anyMember

theorem completable_permission : permission.Completable Grammar.anyMember := by
  have fromSign (name : Name) :=
    (completable_expression.bind_pure (Member.permission name)).trivia_bind.sign_bind '=' rfl
  have named := Completable.named_identifier.bind readsAs_named_identifier
    (fun name => (fromSign name).trivia_bind)
    (detached_trivia_append (fromSign default).possible)
  have behindWord := (named.gap_bind.within .permission).commit
  exact (behindWord.keyword_bind "permission" rfl (detached_gap_append named.possible)).mono
    Grammar.permission_within_anyMember

theorem readsAs_member : member.ReadsAs Grammar.anyMember :=
  fun read _ _ equal => Cursor.spells_anyOf_iff.mpr ⟨read, of_done_member equal⟩

theorem completable_member : member.Completable Grammar.anyMember :=
  completable_relation.orElse completable_permission

/-! ## Definitions -/

namespace Grammar

def anyItem : Spelling :=
  anyOf Item.WellShaped item

theorem definition_within_anyItem :
    Within (word "definition" ++ (gap ++ (anyPath ++ (trivia ++ (sign '{' ++ (trivia ++
      (.repeated (anyMember ++ trivia) ++ sign '}'))))))) anyItem := by
  have isEntry := Spelling.anyOf_append_within Member.WellShaped member trivia
  apply Within.of_spells
  intro start stop spells
  simp only [anyPath, Cursor.spells_append_iff, Cursor.spells_anyOf_iff] at spells
  rcases spells with ⟨_, word, _, gap, _, ⟨name, isPath, nameSpells⟩, _, behindName, _, opening, _,
    front, _, entries, closing⟩
  rcases Cursor.spells_anyOf_iff.mp (entries.mono (Spelling.each_of_repeated isEntry)) with
    ⟨members, shaped, membersSpell⟩
  refine Cursor.spells_anyOf_iff.mpr ⟨.definition { name, members }, ⟨isPath, shaped⟩, ?_⟩
  exact ((((word.append gap).append nameSpells).append
    ((behindName.append opening).append front)).append membersSpell).append closing

end Grammar

theorem completable_definition : definition.Completable Grammar.anyItem := by
  have closing (name : Name) (members : List Member) :=
    ((Completable.character '}').within .definitionBody).bind_pure fun _ =>
      Item.definition { name, members }
  have detachedClosing : (Grammar.sign '}').Detached := Spelling.detached_exactly rfl
  have body (name : Name) := Completable.entries_bind readsAs_member completable_member
    (closing name) detachedClosing
  have fromOpening (name : Name) := (body name).trivia_bind.sign_bind '{' rfl
  have named := Completable.named_typeName.bind readsAs_named_typeName
    (fun name => (fromOpening name).trivia_bind)
    (detached_trivia_append (fromOpening default).possible)
  have behindWord := (named.gap_bind.within .definition).commit
  exact (behindWord.keyword_bind "definition" rfl (detached_gap_append named.possible)).mono
    Grammar.definition_within_anyItem

end PermissionTypes.Schema
