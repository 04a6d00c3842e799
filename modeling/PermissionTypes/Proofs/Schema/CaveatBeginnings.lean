import PermissionTypes.Proofs.Schema.CaveatReading
import PermissionTypes.Proofs.Schema.DefinitionBeginnings

/-! Where a caveat cannot be read on, what has been read begins a caveat. -/

namespace PermissionTypes.Schema

open Schema.Parser
open Spelling (anyOf Within)
open Grammar (IsIdentifier anyPath anyItem detached_trivia_append detached_gap_append)

/-! ## Types -/

namespace Parameter

def anyArguments : Spelling :=
  anyOf (fun arguments : List Unit => arguments ≠ [] ∧ ∀ argument ∈ arguments, True)
    (.separated (Grammar.between ',') fun _ => Grammar.parameterType)

theorem arguments_within_typeArguments :
    Within (Grammar.sign '<' ++ (Grammar.trivia ++ (anyArguments ++ (Grammar.trivia ++
      Grammar.sign '>')))) (Grammar.typeArguments Grammar.parameterType) := by
  apply Within.of_spells
  intro start stop spells
  simp only [anyArguments, Cursor.spells_append_iff, Cursor.spells_anyOf_iff] at spells
  rcases spells with ⟨_, opening, _, front, _, ⟨arguments, ⟨notNil, _⟩, spells⟩, _, back, closing⟩
  cases arguments with
  | nil => exact absurd rfl notNil
  | cons first more =>
      exact Cursor.spells_oneOf_iff.mpr
        ⟨more, (((opening.append front).append spells).append back).append closing⟩

theorem identifier_within_parameterType :
    Within (.language IsIdentifier) Grammar.parameterType := by
  intro offset text isIdentifier
  rw [Grammar.parameterType_eq]
  exact ⟨text, [], (List.append_nil text).symm, .nil_right text, isIdentifier, .inl rfl⟩

theorem possible_identifier : Spelling.Possible (.language IsIdentifier) :=
  fun _ => ⟨['x'], 'x', [], rfl, rfl, nofun⟩

theorem readsAs_identifier : identifier.ReadsAs (.language IsIdentifier) := by
  intro text start stop equal
  rcases done_identifier_iff.mp equal with ⟨isIdentifier, spells⟩
  exact spells.mono fun _ _ spelled => spelled ▸ isIdentifier

theorem completable_identifier : identifier.Completable (.language IsIdentifier) where
  viable := .of_stop (fun _ _ => stop_of_fails_identifier) _
  possible := possible_identifier

section Types

variable {argument : Parser Unit}
  (sound : ∀ ⦃start stop⦄, argument.run start = .done () stop →
    start.Spells Grammar.parameterType stop ∧ Solid start.rest)
  (completable : argument.Completable Grammar.parameterType)

include sound completable

theorem completable_typeArguments :
    (typeArguments argument).Completable (Grammar.typeArguments Grammar.parameterType) := by
  have only : argument.Completable (anyOf (fun _ : Unit => True) fun _ => Grammar.parameterType) :=
    completable.mono fun _ _ spelled => ⟨(), trivial, spelled⟩
  have soundArgument : ∀ ⦃value start stop⦄, argument.run start = .done value stop →
      True ∧ start.Spells Grammar.parameterType stop ∧ Solid start.rest :=
    fun _ _ _ equal => ⟨trivial, sound equal⟩
  have isSeparator := isSeparator_sign isSign_comma
  have arguments : (separated (signBetween ',') argument).Completable anyArguments :=
    .separated isSeparator soundArgument only (only.signBetween_bind ',' rfl)
  have closing := (Completable.character '>').trivia_bind
  have inside := arguments.bind (readsAs_separated isSeparator soundArgument) (fun _ => closing)
    (detached_trivia_append (Completable.character '>').possible)
  exact (inside.trivia_bind.sign_bind '<' rfl).mono arguments_within_typeArguments

theorem completable_typeShape : (typeShape argument).Completable Grammar.parameterType := by
  have none : Spelling.Detached
      (.either (.exactly []) (Grammar.typeArguments Grammar.parameterType)) :=
    Spelling.detached_nothing.mono fun _ _ spelled => .inl spelled
  have arguments : (perhaps (typeArguments argument) >>= fun _ => pure ()).Completable
      (.either (.exactly []) (Grammar.typeArguments Grammar.parameterType)) :=
    { viable := ((completable_typeArguments sound completable).viable.perhaps.bind_pure
        fun _ => ()).mono fun _ _ spelled => .inr spelled
      possible := none.possible }
  rw [Grammar.parameterType_eq]
  exact completable_identifier.bind readsAs_identifier (fun _ => arguments) none

end Types

theorem completable_nestedType (depth : Nat) :
    (nestedType depth).Completable Grammar.parameterType := by
  induction depth with
  | zero =>
      refine ⟨fun start failure fails => ?_,
        possible_identifier.mono identifier_within_parameterType⟩
      rcases fails with equal | equal <;> cases equal
      exact .refl start _
  | succ depth induction =>
      refine completable_typeShape (fun start stop equal => ?_)
        ⟨fun _ _ fails => induction.viable fails, induction.possible⟩
      rcases of_done_nestedType depth (done_delay_iff.mp equal) with ⟨spells, solid⟩
      exact ⟨Cursor.spells_oneOf_iff.mpr ⟨depth, spells⟩, solid⟩

end Parameter

theorem completable_parameterType : parameterType.Completable Grammar.parameterType where
  viable start failure fails := by
    have inner : Parameter.wholeType.Fails start failure := fails_textOf_iff.mp fails
    have deep : Parameter.wholeType.run start =
        (Parameter.nestedType (start.rest.length + 1)).run start := rfl
    rw [Fails, deep] at inner
    exact (Parameter.completable_nestedType _).viable inner
  possible := Parameter.possible_identifier.mono Parameter.identifier_within_parameterType

/-! ## Parameters -/

namespace Grammar

def anyParameter : Spelling :=
  anyOf Parameter.WellShaped parameter

theorem parts_within_anyParameter :
    Within (.language IsIdentifier ++ (gap ++ parameterType)) anyParameter := by
  apply Within.of_spells
  intro start stop spells
  simp only [Cursor.spells_append_iff] at spells
  rcases spells with ⟨_, ⟨name, nameReads, nameApart, isIdentifier⟩, _, gap, type, typeReads,
    typeApart, isType⟩
  let whole : Parameter := { name := String.ofList name, type := String.ofList type }
  have shaped : whole.WellShaped :=
    { name := by rwa [String.toList_ofList]
      type := ⟨_, by rwa [String.toList_ofList]⟩ }
  refine Cursor.spells_anyOf_iff.mpr ⟨whole, shaped, ?_⟩
  simp only [parameter, whole, String.toList_ofList]
  exact ((Cursor.spells_exactly_iff.mpr ⟨nameReads, nameApart⟩).append gap).append
    (Cursor.spells_exactly_iff.mpr ⟨typeReads, typeApart⟩)

def anyParameters : Spelling :=
  .either (.exactly []) (anyOf
    (fun parameters => parameters ≠ [] ∧ ∀ parameter ∈ parameters, parameter.WellShaped)
    (.separated (between ',') parameter))

theorem detached_anyParameters : anyParameters.Detached :=
  Spelling.detached_nothing.mono fun _ _ spelled => .inl spelled

theorem spells_parameters_of_parts {start stop : Cursor}
    (spells : start.Spells (trivia ++ (anyParameters ++ trivia)) stop) :
    ∃ written, (∀ parameter ∈ written, parameter.WellShaped) ∧
      start.Spells (parameters written) stop := by
  simp only [anyParameters, Cursor.spells_append_iff, Cursor.spells_either_iff,
    Cursor.spells_anyOf_iff] at spells
  rcases spells with ⟨_, front, _, none | ⟨written, ⟨notNil, shaped⟩, spells⟩, back⟩
  · obtain rfl := Cursor.spells_exactly_nil_iff.mp none
    refine ⟨[], List.forall_mem_nil _, ?_⟩
    rw [parameters, ← trivia_append_trivia]
    exact front.append back
  · refine ⟨written, shaped, ?_⟩
    cases written with
    | nil => exact absurd rfl notNil
    | cons first more => exact (front.append spells).append back

end Grammar

theorem completable_parameter : parameter.Completable Grammar.anyParameter := by
  have behindName (name : List Char) := (completable_parameterType.bind_pure fun type =>
    ({ name := String.ofList name, type := String.ofList type } : Parameter)).gap_bind
  have parts := Parameter.completable_identifier.bind Parameter.readsAs_identifier behindName
    (detached_gap_append completable_parameterType.possible)
  exact (parts.mono Grammar.parts_within_anyParameter).within _

theorem completable_parameterList : parameterList.Completable Grammar.anyParameters where
  viable := by
    have list := Completable.separated (isSeparator_sign isSign_comma)
      (fun _ _ _ equal => of_done_parameter equal) completable_parameter
      (completable_parameter.signBetween_bind ',' rfl)
    exact list.viable.perhaps.mono fun _ _ spelled => .inr spelled
  possible := Grammar.detached_anyParameters.possible

theorem readsAs_parameterList : parameterList.ReadsAs Grammar.anyParameters := by
  intro read start stop equal
  rw [Grammar.anyParameters, Cursor.spells_either_iff]
  rcases done_perhaps_iff.mp equal with ⟨values, rfl, listEqual⟩ | ⟨rfl, _, rfl⟩
  · exact .inr (readsAs_separated (isSeparator_sign isSign_comma)
      (fun _ _ _ equal => of_done_parameter equal) listEqual)
  · exact .inl (Cursor.spells_exactly_nil_iff.mpr rfl)

/-! ## Bodies -/

namespace Caveat

theorem exists_closing (depth : Nat) : ∃ text, Closing depth text := by
  induction depth with
  | zero => exact ⟨[], .nil⟩
  | succ depth induction =>
      rcases induction with ⟨text, closing⟩
      exact ⟨'}' :: text, closing.closed⟩

theorem Nesting.exists_closed (nesting : Nesting) : ∃ text, nesting.Closed text := by
  rcases nesting with ⟨depth, region⟩
  rcases exists_closing depth with ⟨text, closing⟩
  cases region with
  | code => exact ⟨text, closing⟩
  | literal quote => exact ⟨quote :: text, [], text, rfl, .nil, closing⟩
  | escaped quote => exact ⟨quote :: quote :: text, quote, [], text, rfl, .nil, closing⟩

/-- A text in which a body does not end can be gone on with until it does. -/
theorem exists_closed_of_splitBody {nesting : Nesting} {text : List Char}
    (equal : splitBody nesting text = none) : ∃ more, nesting.Closed (text ++ more) := by
  induction text generalizing nesting with
  | nil => exact nesting.exists_closed
  | cons character text induction =>
      rw [splitBody] at equal
      split at equal
      · cases equal
      · rename_i next after
        split at equal
        · cases equal
        · rename_i goesOn
          rcases induction goesOn with ⟨more, closed⟩
          exact ⟨more, Nesting.closed_cons after closed⟩

theorem readsAs_body : body.ReadsAs (.language Balanced) := by
  intro text start stop equal
  rcases done_body_iff.mp equal with ⟨balanced, reads, closes⟩
  refine ⟨text, reads, .of_head fun first member => ?_, balanced⟩
  rw [closes] at member
  cases member
  rfl

theorem completable_body : body.Completable (.language Balanced) where
  viable start failure fails := by
    rw [Fails, body] at fails
    cases split : splitBody .outermost start.rest with
    | some parts => simp [split] at fails
    | none =>
        simp only [split, reduceCtorEq, Reply.aborted.injEq, false_or] at fails
        rcases exists_closed_of_splitBody split with ⟨more, closed⟩
        have reads : start.Reads start.rest failure.stop := by
          rw [← fails]
          exact Cursor.reads_advance (List.append_nil start.rest).symm
        exact ⟨start.rest, more, reads, fun _ => closed⟩
  possible := fun _ => ⟨[], .nil⟩

end Caveat

/-! ## Caveats -/

theorem Grammar.caveat_within_anyItem :
    Within (word "caveat" ++ (gap ++ (anyPath ++ (trivia ++ (sign '(' ++ (trivia ++
      (anyParameters ++ (trivia ++ (sign ')' ++ (trivia ++ (sign '{' ++
        (.language Caveat.Balanced ++ sign '}')))))))))))) anyItem := by
  apply Within.of_spells
  intro start stop spells
  simp only [anyPath, Cursor.spells_append_iff, Cursor.spells_anyOf_iff] at spells
  rcases spells with ⟨_, word, _, gap, _, ⟨name, isPath, nameSpells⟩, _, behindName, _, opening, _,
    front, _, list, _, back, _, closing, _, beforeBody, _, openingBrace, _,
    ⟨text, bodyReads, bodyApart, balanced⟩, closingBrace⟩
  rcases spells_parameters_of_parts (front.append (list.append back)) with
    ⟨parameters, shaped, parametersSpell⟩
  let whole : Caveat := { name, parameters, expression := String.ofList text }
  have wholeShaped : whole.WellShaped :=
    { name := isPath
      parameters := shaped
      expression := by rwa [String.toList_ofList] }
  refine Cursor.spells_anyOf_iff.mpr ⟨.caveat whole, wholeShaped, ?_⟩
  simp only [item, whole, String.toList_ofList]
  exact word.append gap |>.append nameSpells |>.append behindName |>.append opening
    |>.append parametersSpell |>.append closing |>.append beforeBody |>.append openingBrace
    |>.append (Cursor.spells_exactly_iff.mpr ⟨bodyReads, bodyApart⟩) |>.append closingBrace

theorem completable_caveat : caveat.Completable anyItem := by
  have closing (name : Name) (parameters : Option (List Parameter)) (body : List Char) :=
    (Completable.character '}').bind_pure fun _ => Item.caveat {
      name
      parameters := parameters.getD []
      expression := String.ofList body }
  have detachedClosing : (Grammar.sign '}').Detached := Spelling.detached_exactly rfl
  have body (name : Name) (parameters : Option (List Parameter)) :=
    Caveat.completable_body.bind Caveat.readsAs_body (closing name parameters) detachedClosing
  have fromClosing (name : Name) (parameters : Option (List Parameter)) :=
    ((body name parameters).sign_bind '{' rfl).trivia_bind.sign_bind ')' rfl
  have parameters (name : Name) := completable_parameterList.bind readsAs_parameterList
    (fun parameters => (fromClosing name parameters).trivia_bind)
    (detached_trivia_append (fromClosing default none).possible)
  have fromOpening (name : Name) := (parameters name).trivia_bind.sign_bind '(' rfl
  have named := Completable.named_typeName.bind readsAs_named_typeName
    (fun name => (fromOpening name).trivia_bind)
    (detached_trivia_append (fromOpening default).possible)
  have behindWord := (named.gap_bind.within .caveat).commit
  exact (behindWord.keyword_bind "caveat" rfl (detached_gap_append named.possible)).mono
    Grammar.caveat_within_anyItem

end PermissionTypes.Schema
