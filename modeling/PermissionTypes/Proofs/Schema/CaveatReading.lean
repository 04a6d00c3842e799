import PermissionTypes.Proofs.Schema.BodyReading
import PermissionTypes.Proofs.Schema.ListReading
import PermissionTypes.Schema.Agreement

/-! Caveats are read exactly where the grammar spells them. -/

namespace PermissionTypes.Schema

open Schema.Parser
open Trivia (isBlank Absent)
open Grammar (IsIdentifier IsPath)

theorem isSign_comma : IsSign ',' :=
  ⟨rfl, rfl, by decide⟩

theorem solid_of_identifier {start stop : Cursor} {text : List Char}
    (equal : identifier.run start = .done text stop) : Solid start.rest := by
  rcases done_identifier_iff.mp equal with ⟨isIdentifier, spells⟩
  exact solid_of_spells isIdentifier.head spells

namespace Parameter

/-! ## Types -/

def typeArguments (argument : Parser Unit) : Parser Unit := do
  character '<'
  trivia
  let _ ← separated (signBetween ',') argument
  trivia
  character '>'

def EndsType (rest : List Char) : Prop :=
  NotAmong ['<'] rest

section Types

variable {argument : Parser Unit} {spelling : Spelling}

theorem of_done_typeArguments
    (sound : ∀ ⦃start stop⦄, argument.run start = .done () stop →
      start.Spells spelling stop ∧ Solid start.rest)
    {start stop : Cursor} (equal : (typeArguments argument).run start = .done () stop) :
    start.Spells (Grammar.typeArguments spelling) stop := by
  rcases done_bind_iff.mp equal with ⟨_, _, opening, equal⟩
  rcases done_bind_iff.mp equal with ⟨_, _, front, equal⟩
  rcases done_bind_iff.mp equal with ⟨values, _, argumentsEqual, equal⟩
  rcases done_bind_iff.mp equal with ⟨_, _, back, closing⟩
  have openingSpells := (done_character_iff_spells rfl).mp opening
  have closingSpells := (done_character_iff_spells rfl).mp closing
  have closingSolid := solid_of_spells_exactly closingSpells rfl (by decide)
  rcases of_done_separated (isSeparator_sign isSign_comma) (fun _ => True)
    (fun _ => spelling) (fun _ _ _ equal => ⟨trivial, sound equal⟩)
    argumentsEqual with ⟨notNil, _, spells, solid⟩
  cases values with
  | nil => exact absurd rfl notNil
  | cons first more =>
      exact Cursor.spells_oneOf_iff.mpr ⟨more,
        (((openingSpells.append (spells_of_done_trivia front solid.ne_nil).1).append
          spells).append (spells_of_done_trivia back closingSolid.ne_nil).1).append
          closingSpells⟩

theorem run_typeArguments
    (complete : ∀ ⦃start stop⦄, start.Spells spelling stop → stop.Faces EndsType →
      argument.run start = .done () stop ∧ Solid start.rest)
    {start stop : Cursor} (spells : start.Spells (Grammar.typeArguments spelling) stop) :
    (typeArguments argument).run start = .done () stop := by
  rcases Cursor.spells_oneOf_iff.mp spells with ⟨more, spells⟩
  simp only [Cursor.spells_append_iff] at spells
  rcases spells with ⟨_, ⟨last, ⟨_, ⟨_, opening, front⟩, arguments⟩, back⟩, closing⟩
  have closingSolid := solid_of_spells_exactly closing rfl (by decide)
  have closingFaced {ends : List Char → Prop} (holds : ∀ rest, ends ('>' :: rest)) :
      last.Faces ends := by
    refine ⟨_, back, closingSolid.absent, ?_⟩
    rw [head_of_spells_sign closing]
    exact holds _
  rcases run_separated (isSeparator_sign isSign_comma) (fun _ => True)
    (fun cursor => cursor.Faces EndsType)
    (fun _ _ _ _ spells faces => complete spells faces)
    (fun _ _ between _ => faces_of_spells_between isSign_comma between
      fun _ => .cons (by decide))
    (List.cons_ne_nil () more) (fun _ _ => trivial) arguments
    (closingFaced fun _ => .cons (by decide))
    (rejects_signBetween (closingFaced fun _ => .cons (by decide))) with ⟨equal, solid⟩
  refine (run_bind_of_done ((done_character_iff_spells rfl).mpr opening)).trans ?_
  refine (run_bind_of_done (run_trivia front solid.absent)).trans ?_
  refine (run_bind_of_done equal).trans ?_
  refine (run_bind_of_done (run_trivia back closingSolid.absent)).trans ?_
  exact (done_character_iff_spells rfl).mpr closing

theorem of_done_typeShape
    (sound : ∀ ⦃start stop⦄, argument.run start = .done () stop →
      start.Spells spelling stop ∧ Solid start.rest)
    {start stop : Cursor} (equal : (typeShape argument).run start = .done () stop) :
    start.Spells (Grammar.typeShape spelling) stop ∧ Solid start.rest := by
  rcases done_bind_iff.mp equal with ⟨text, _, identifierEqual, equal⟩
  rcases done_bind_iff.mp equal with ⟨arguments, _, perhapsEqual, result⟩
  rcases done_pure_iff.mp result with ⟨_, rfl⟩
  rcases done_identifier_iff.mp identifierEqual with ⟨isIdentifier, text, reads, apart⟩
  refine ⟨?_, solid_of_identifier identifierEqual⟩
  rcases done_perhaps_iff.mp perhapsEqual with ⟨_, _, argumentsEqual⟩ | ⟨_, _, rfl⟩
  · have spells := of_done_typeArguments sound argumentsEqual
    exact Cursor.Spells.append ⟨text, reads, apart.1, apart.2 ▸ isIdentifier⟩
      (Cursor.spells_either_iff.mpr (.inr spells))
  · exact Cursor.Spells.append ⟨text, reads, apart.1, apart.2 ▸ isIdentifier⟩
      (Cursor.spells_either_iff.mpr (.inl (Cursor.spells_exactly_nil_iff.mpr rfl)))

theorem run_typeShape
    (complete : ∀ ⦃start stop⦄, start.Spells spelling stop → stop.Faces EndsType →
      argument.run start = .done () stop ∧ Solid start.rest)
    {start stop : Cursor} (spells : start.Spells (Grammar.typeShape spelling) stop)
    (faces : stop.Faces EndsType) :
    (typeShape argument).run start = .done () stop ∧ Solid start.rest := by
  rcases Cursor.spells_append_iff.mp spells with
    ⟨middle, ⟨text, reads, apart, isIdentifier⟩, rest⟩
  have identifierEqual : identifier.run start = .done text middle :=
    done_identifier_iff.mpr ⟨isIdentifier, Cursor.spells_exactly_iff.mpr ⟨reads, apart⟩⟩
  refine ⟨(run_bind_of_done identifierEqual).trans ?_, solid_of_identifier identifierEqual⟩
  rcases Cursor.spells_either_iff.mp rest with none | arguments
  · obtain rfl := Cursor.spells_exactly_nil_iff.mp none
    have noArguments : (typeArguments argument).Rejects stop := by
      refine Rejects.bind_left (rejects_character_iff.mpr ?_) _
      exact faces.head_ne (fun _ ends => ends) rfl (by decide)
    have perhapsEqual : (perhaps (typeArguments argument)).run stop = .done .none stop :=
      done_perhaps_iff.mpr (.inr ⟨rfl, noArguments, rfl⟩)
    exact run_bind_of_done perhapsEqual
  · have perhapsEqual : (perhaps (typeArguments argument)).run middle = .done (some ()) stop :=
      done_perhaps_iff.mpr (.inl ⟨(), rfl, run_typeArguments complete arguments⟩)
    exact run_bind_of_done perhapsEqual

end Types

theorem of_done_nestedType (depth : Nat) {start stop : Cursor}
    (equal : (nestedType depth).run start = .done () stop) :
    start.Spells (Grammar.nestedType depth) stop ∧ Solid start.rest := by
  induction depth generalizing start stop with
  | zero => cases equal
  | succ depth induction =>
      exact of_done_typeShape (fun _ _ equal => induction (done_delay_iff.mp equal)) equal

/-- The arguments of a type are types again, so the depth of a text needs no bound. -/
theorem run_wholeType_of_spells (depth : Nat) {start stop : Cursor}
    (spells : start.Spells (Grammar.nestedType depth) stop) (faces : stop.Faces EndsType) :
    wholeType.run start = .done () stop ∧ Solid start.rest := by
  induction depth generalizing start stop with
  | zero => exact absurd spells Cursor.not_spells_never
  | succ depth induction =>
      rw [run_wholeType]
      exact run_typeShape (fun _ _ spells faces => induction spells faces) spells faces

theorem anywhere_parameterType : Grammar.parameterType.Anywhere := by
  refine .oneOf fun depth => ?_
  induction depth with
  | zero => exact .never
  | succ depth induction =>
      refine .append (.language _) (.either (.exactly []) (.oneOf fun more => ?_))
      refine .append (.append (.append (.append (.exactly _) (.language _)) ?_) (.language _))
        (.exactly _)
      exact .separated (.append (.append (.language _) (.exactly _)) (.language _))
        (fun _ => induction) _

end Parameter

open Parameter (EndsType)

theorem of_done_parameterType {start stop : Cursor} {text : List Char}
    (equal : parameterType.run start = .done text stop) :
    (∃ offset, Grammar.parameterType offset text) ∧ start.Spells (.exactly text) stop ∧
      Solid start.rest := by
  rcases done_textOf_iff.mp equal with ⟨reads, _, equal⟩
  have nestedEqual : (Parameter.nestedType (start.rest.length + 1)).run start = .done () stop :=
    equal
  rcases Parameter.of_done_nestedType _ nestedEqual with
    ⟨⟨other, otherReads, apart, spelled⟩, solid⟩
  have same : other = text := by
    have texts := otherReads.rest_eq.symm.trans reads.rest_eq
    exact List.append_cancel_right texts
  subst same
  exact ⟨⟨start.offset, _, spelled⟩, Cursor.spells_exactly_iff.mpr ⟨reads, apart⟩, solid⟩

theorem run_parameterType {start stop : Cursor} {text : List Char}
    (isType : ∃ offset, Grammar.parameterType offset text)
    (spells : start.Spells (.exactly text) stop) (faces : stop.Faces EndsType) :
    parameterType.run start = .done text stop ∧ Solid start.rest := by
  rcases Cursor.spells_exactly_iff.mp spells with ⟨reads, apart⟩
  rcases isType with ⟨offset, spelled⟩
  have spelledHere : Grammar.parameterType start.offset text :=
    Parameter.anywhere_parameterType spelled
  rcases spelledHere with ⟨depth, spelled⟩
  rcases Parameter.run_wholeType_of_spells depth ⟨text, reads, apart, spelled⟩ faces with
    ⟨equal, solid⟩
  exact ⟨done_textOf_iff.mpr ⟨reads, (), equal⟩, solid⟩

/-! ## Parameters -/

theorem of_done_parameter {read : Parameter} {start stop : Cursor}
    (equal : parameter.run start = .done read stop) :
    read.WellShaped ∧ start.Spells (Grammar.parameter read) stop ∧ Solid start.rest := by
  rcases done_bind_iff.mp (done_within_iff.mp equal) with ⟨name, _, nameEqual, equal⟩
  rcases done_bind_iff.mp equal with ⟨_, _, gapEqual, equal⟩
  rcases done_bind_iff.mp equal with ⟨type, _, typeEqual, result⟩
  rcases done_pure_iff.mp result with ⟨rfl, rfl⟩
  rcases done_identifier_iff.mp nameEqual with ⟨isIdentifier, nameSpells⟩
  rcases of_done_parameterType typeEqual with ⟨isType, typeSpells, typeSolid⟩
  refine ⟨⟨?_, ?_⟩, ?_, solid_of_identifier nameEqual⟩
  · rwa [String.toList_ofList]
  · rwa [String.toList_ofList]
  · rw [Grammar.parameter, String.toList_ofList, String.toList_ofList]
    exact (nameSpells.append (spells_of_done_gap gapEqual typeSolid.ne_nil).1).append typeSpells

theorem run_parameter {written : Parameter} (shaped : written.WellShaped) {start stop : Cursor}
    (spells : start.Spells (Grammar.parameter written) stop) (faces : stop.Faces EndsType) :
    parameter.run start = .done written stop ∧ Solid start.rest := by
  simp only [Grammar.parameter, Cursor.spells_append_iff] at spells
  rcases spells with ⟨_, ⟨_, nameSpells, gapSpells⟩, typeSpells⟩
  rcases run_parameterType shaped.type typeSpells faces with ⟨typeEqual, typeSolid⟩
  have nameEqual := done_identifier_iff.mpr ⟨shaped.name, nameSpells⟩
  refine ⟨done_within_iff.mpr ?_, solid_of_identifier nameEqual⟩
  refine (run_bind_of_done nameEqual).trans ?_
  refine (run_bind_of_done (run_gap_of_spells gapSpells typeSolid.absent)).trans ?_
  refine (run_bind_of_done typeEqual).trans (done_pure_iff.mpr ⟨?_, rfl⟩)
  simp

theorem rejects_parameter {start : Cursor}
    (other : ∀ next ∈ start.rest.head?, isLetter next = false) : parameter.Rejects start :=
  rejects_within_iff.mpr ((rejects_identifier other).bind_left _)

def parameterList : Parser (Option (List Parameter)) :=
  perhaps (separated (signBetween ',') parameter)

theorem of_done_parameterList {first second third stop : Cursor}
    {read : Option (List Parameter)} (front : trivia.run first = .done () second)
    (equal : parameterList.run second = .done read third)
    (back : trivia.run third = .done () stop) (inside : stop.rest ≠ []) :
    (∀ parameter ∈ read.getD [], parameter.WellShaped) ∧
      first.Spells (Grammar.parameters (read.getD [])) stop := by
  have backSpells := (spells_of_done_trivia back inside).1
  rcases done_perhaps_iff.mp equal with ⟨values, rfl, listEqual⟩ | ⟨rfl, _, rfl⟩
  · rcases of_done_separated (isSeparator_sign isSign_comma) Parameter.WellShaped
      Grammar.parameter (fun _ _ _ equal => of_done_parameter equal) listEqual with
      ⟨notNil, shaped, spells, solid⟩
    refine ⟨shaped, ?_⟩
    cases values with
    | nil => exact absurd rfl notNil
    | cons value values =>
        exact ((spells_of_done_trivia front solid.ne_nil).1.append spells).append backSpells
  · refine ⟨fun _ impossible => absurd impossible List.not_mem_nil, ?_⟩
    rcases spells_trivia_iff.mp backSpells with ⟨text, reads, isTrivia⟩
    have inFront : third.rest ≠ [] := by
      rw [reads.rest_eq]
      simp [inside]
    rcases spells_trivia_iff.mp (spells_of_done_trivia front inFront).1 with
      ⟨frontText, frontReads, frontTrivia⟩
    exact spells_trivia_iff.mpr
      ⟨frontText ++ text, frontReads.trans reads, Trivia.isTrivia_append frontTrivia isTrivia⟩

theorem run_parameterList {written : List Parameter}
    (shaped : ∀ parameter ∈ written, parameter.WellShaped) {first stop : Cursor}
    {rest : List Char} (spells : first.Spells (Grammar.parameters written) stop)
    (closes : stop.rest = ')' :: rest) :
    ∃ second third read, trivia.run first = .done () second ∧
      parameterList.run second = .done read third ∧ trivia.run third = .done () stop ∧
      read.getD [] = written := by
  have solid : Solid stop.rest := ⟨')', rest, closes, rfl, by decide⟩
  cases written with
  | nil =>
      have noParameter : parameter.Rejects stop := by
        apply rejects_parameter
        rw [closes]
        rintro next ⟨rfl⟩
        rfl
      have none : parameterList.run stop = .done .none stop :=
        done_perhaps_iff.mpr (.inr ⟨rfl, noParameter.bind_left _, rfl⟩)
      exact ⟨stop, stop, .none, run_trivia spells solid.absent, none,
        run_trivia_of_absent solid.absent, rfl⟩
  | cons value values =>
      simp only [Grammar.parameters, Cursor.spells_append_iff] at spells
      rcases spells with ⟨last, ⟨second, front, members⟩, back⟩
      have faces {ends : List Char → Prop} (holds : ∀ rest, ends (')' :: rest)) :
          last.Faces ends := by
        refine ⟨stop, back, solid.absent, ?_⟩
        rw [closes]
        exact holds rest
      rcases run_separated (isSeparator_sign isSign_comma) Parameter.WellShaped
        (fun cursor => cursor.Faces EndsType)
        (fun _ _ _ shaped spells faces => run_parameter shaped spells faces)
        (fun _ _ between _ => faces_of_spells_between isSign_comma between
          fun _ => .cons (by decide))
        (List.cons_ne_nil value values) shaped members (faces fun _ => .cons (by decide))
        (rejects_signBetween (faces fun _ => .cons (by decide))) with ⟨equal, secondSolid⟩
      exact ⟨second, last, some (value :: values), run_trivia front secondSolid.absent,
        done_perhaps_iff.mpr (.inl ⟨_, rfl, equal⟩), run_trivia back solid.absent, rfl⟩

/-! ## Bodies -/

theorem done_body_iff {start stop : Cursor} {body : List Char} :
    Caveat.body.run start = .done body stop ↔
      Caveat.Balanced body ∧ start.Reads body stop ∧ stop.rest.head? = some '}' := by
  rw [Cursor.reads_iff_advance]
  simp only [Caveat.body]
  constructor
  · intro equal
    split at equal
    · rename_i splitText splitRest split
      cases equal
      rcases Caveat.splitBody_outermost_iff.mp split with ⟨text, balanced, closes⟩
      exact ⟨balanced, ⟨splitRest, text, rfl⟩, closes⟩
    · cases equal
  · rintro ⟨balanced, ⟨rest, text, rfl⟩, closes⟩
    rw [Caveat.splitBody_outermost_iff.mpr ⟨text, balanced, closes⟩]

theorem run_body {start middle stop : Cursor} {body : List Char}
    (balanced : Caveat.Balanced body) (spells : start.Spells (.exactly body) middle)
    (closing : middle.Spells (Grammar.sign '}') stop) :
    Caveat.body.run start = .done body middle := by
  refine done_body_iff.mpr ⟨balanced, (Cursor.spells_exactly_iff.mp spells).1, ?_⟩
  rw [head_of_spells_sign closing]
  rfl

/-! ## Items -/

theorem of_done_caveat {read : Item} {start stop : Cursor}
    (equal : caveat.run start = .done read stop) :
    read.WellShaped ∧ start.Spells (Grammar.item read) stop := by
  rcases done_bind_iff.mp equal with ⟨_, _, word, equal⟩
  have inner := done_within_iff.mp (done_commit_iff.mp equal)
  rcases done_bind_iff.mp inner with ⟨_, _, gapEqual, equal⟩
  rcases done_bind_iff.mp equal with ⟨name, _, nameEqual, equal⟩
  rcases done_bind_iff.mp equal with ⟨_, _, behindName, equal⟩
  rcases done_bind_iff.mp equal with ⟨_, _, opening, equal⟩
  rcases done_bind_iff.mp equal with ⟨_, _, front, equal⟩
  rcases done_bind_iff.mp equal with ⟨parameters, _, parametersEqual, equal⟩
  rcases done_bind_iff.mp equal with ⟨_, _, back, equal⟩
  rcases done_bind_iff.mp equal with ⟨_, _, closing, equal⟩
  rcases done_bind_iff.mp equal with ⟨_, _, beforeBody, equal⟩
  rcases done_bind_iff.mp equal with ⟨_, _, openingBrace, equal⟩
  rcases done_bind_iff.mp equal with ⟨body, _, bodyEqual, equal⟩
  rcases done_bind_iff.mp equal with ⟨_, _, closingBrace, result⟩
  rcases done_pure_iff.mp result with ⟨rfl, rfl⟩
  -- Each part is spelled by the grammar, and trivia ends where the part behind it is solid.
  have wordSpells := (done_keyword_iff rfl).mp word
  rcases of_done_named_typeName nameEqual with ⟨isPath, nameSpells⟩
  have openingSpells := (done_character_iff_spells rfl).mp opening
  have closingSpells := (done_character_iff_spells rfl).mp closing
  have openingBraceSpells := (done_character_iff_spells rfl).mp openingBrace
  have closingBraceSpells := (done_character_iff_spells rfl).mp closingBrace
  have nameSolid := solid_of_spells_name isPath.head nameSpells
  have openingSolid := solid_of_spells_exactly openingSpells rfl (by decide)
  have closingSolid := solid_of_spells_exactly closingSpells rfl (by decide)
  have braceSolid := solid_of_spells_exactly openingBraceSpells rfl (by decide)
  rcases of_done_parameterList front parametersEqual back closingSolid.ne_nil with
    ⟨parametersShaped, parametersSpells⟩
  rcases done_body_iff.mp bodyEqual with ⟨balanced, bodyReads, closes⟩
  have bodySpells := Cursor.spells_exactly_iff.mpr ⟨bodyReads, .of_head fun first member => by
    rw [closes] at member
    cases member
    rfl⟩
  refine ⟨⟨isPath, parametersShaped, ?_⟩, ?_⟩
  · rwa [String.toList_ofList]
  · simp only [Grammar.item, String.toList_ofList]
    exact wordSpells.append (spells_of_done_gap gapEqual nameSolid.ne_nil).1
      |>.append nameSpells |>.append (spells_of_done_trivia behindName openingSolid.ne_nil).1
      |>.append openingSpells |>.append parametersSpells |>.append closingSpells
      |>.append (spells_of_done_trivia beforeBody braceSolid.ne_nil).1
      |>.append openingBraceSpells |>.append bodySpells |>.append closingBraceSpells

theorem run_caveat {written : Caveat} (shaped : written.WellShaped) {start stop : Cursor}
    (spells : start.Spells (Grammar.item (.caveat written)) stop) :
    caveat.run start = .done (.caveat written) stop := by
  simp only [Grammar.item, Cursor.spells_append_iff] at spells
  rcases spells with ⟨_, ⟨_, ⟨_, ⟨_, ⟨_, ⟨_, ⟨_, ⟨_, ⟨_, ⟨_, word, gapSpells⟩, nameSpells⟩,
    behindName⟩, opening⟩, parameters⟩, closing⟩, beforeBody⟩, openingBrace⟩, bodySpells⟩,
    closingBrace⟩
  have nameSolid := solid_of_spells_name shaped.name.head nameSpells
  have openingSolid := solid_of_spells_exactly opening rfl (by decide)
  have braceSolid := solid_of_spells_exactly openingBrace rfl (by decide)
  have nameFaces : Cursor.Faces _ (NotAmong ['/']) :=
    ⟨_, behindName, openingSolid.absent, by
      rw [head_of_spells_sign opening]
      exact .cons (by decide)⟩
  have nameEqual := run_named_typeName shaped.name nameSpells
    (nameFaces.pathEnds fun _ holds => holds)
  rcases run_parameterList shaped.parameters parameters (head_of_spells_sign closing) with
    ⟨_, _, read, front, parametersEqual, back, result⟩
  refine (run_bind_of_done ((done_keyword_iff rfl).mpr word)).trans ?_
  refine done_commit_iff.mpr (done_within_iff.mpr ?_)
  refine (run_bind_of_done (run_gap_of_spells gapSpells nameSolid.absent)).trans ?_
  refine (run_bind_of_done nameEqual).trans ?_
  refine (run_bind_of_done (run_trivia behindName openingSolid.absent)).trans ?_
  refine (run_bind_of_done ((done_character_iff_spells rfl).mpr opening)).trans ?_
  refine (run_bind_of_done front).trans ?_
  refine (run_bind_of_done parametersEqual).trans ?_
  refine (run_bind_of_done back).trans ?_
  refine (run_bind_of_done ((done_character_iff_spells rfl).mpr closing)).trans ?_
  refine (run_bind_of_done (run_trivia beforeBody braceSolid.absent)).trans ?_
  refine (run_bind_of_done ((done_character_iff_spells rfl).mpr openingBrace)).trans ?_
  refine (run_bind_of_done (run_body shaped.expression bodySpells closingBrace)).trans ?_
  refine (run_bind_of_done ((done_character_iff_spells rfl).mpr closingBrace)).trans ?_
  refine done_pure_iff.mpr ⟨?_, rfl⟩
  rw [result, String.ofList_toList]

end PermissionTypes.Schema
