import PermissionTypes.Proofs.Schema.Completable
import PermissionTypes.Proofs.Schema.ExpressionReading

/-! Where an expression cannot be read on, what has been read begins an expression. -/

namespace PermissionTypes.Schema

open Schema.Parser
open Spelling (anyOf Within Possible Detached repeated)
open Grammar (IsIdentifier anyIdentifier possible_anyIdentifier detached_trivia_append
  detached_sign_append)

namespace Expression

/-! ## Walks -/

def anyWalk : Spelling :=
  .oneOf fun arrow =>
    anyOf (fun target => IsIdentifier target.text.toList) (Grammar.walkTarget · arrow)

def anyQuantifier : Spelling :=
  .either (Grammar.word "any") (Grammar.word "all")

def anyTargetInParentheses : Spelling :=
  Grammar.sign '(' ++
    (Grammar.trivia ++ (anyIdentifier ++ (Grammar.trivia ++ Grammar.sign ')')))

theorem arrow_within_anyWalk :
    Within (Grammar.trivia ++ (.exactly ['-', '>'] ++ (Grammar.trivia ++ anyIdentifier)))
      anyWalk := by
  apply Within.of_spells
  intro start stop spells
  simp only [anyIdentifier, Cursor.spells_append_iff, Cursor.spells_anyOf_iff] at spells
  rcases spells with ⟨_, front, _, sign, _, back, target, isIdentifier, name⟩
  refine Cursor.spells_oneOf_iff.mpr ⟨.each, Cursor.spells_anyOf_iff.mpr ⟨target, isIdentifier, ?_⟩⟩
  exact ((front.append sign).append back).append name

theorem quantified_within_anyWalk :
    Within (Grammar.sign '.' ++ (anyQuantifier ++ anyTargetInParentheses)) anyWalk := by
  apply Within.of_spells
  intro start stop spells
  simp only [anyQuantifier, anyTargetInParentheses, anyIdentifier, Cursor.spells_append_iff,
    Cursor.spells_anyOf_iff, Cursor.spells_either_iff] at spells
  rcases spells with ⟨_, dot, _, word, _, opening, _, front, _, ⟨target, isIdentifier, name⟩, _,
    back, closing⟩
  have inside := (((opening.append front).append name).append back).append closing
  rw [anyWalk, Cursor.spells_oneOf_iff]
  rcases word with any | all
  · exact ⟨.any, Cursor.spells_anyOf_iff.mpr ⟨target, isIdentifier,
      (dot.append any).append inside⟩⟩
  · exact ⟨.all, Cursor.spells_anyOf_iff.mpr ⟨target, isIdentifier,
      (dot.append all).append inside⟩⟩

theorem detached_anyWalk : anyWalk.Detached := by
  have target := detached_trivia_append possible_anyIdentifier
  have arrow : (.exactly ['-', '>'] ++ (Grammar.trivia ++ anyIdentifier) : Spelling).Detached :=
    Spelling.detached_exactly_append rfl rfl (List.cons_ne_nil _ _) target.possible
  exact (detached_trivia_append arrow.possible).mono arrow_within_anyWalk

theorem detached_anyTargetInParentheses : anyTargetInParentheses.Detached := by
  have closing := detached_trivia_append (Spelling.possible_exactly [')'])
  exact detached_sign_append rfl
    (detached_trivia_append (possible_anyIdentifier.append_detached closing)).possible

theorem completable_targetInParentheses :
    targetInParentheses.Completable anyTargetInParentheses := by
  have closing (target : Name) := (Completable.character ')').bind_pure fun _ => target
  have name := Completable.named_identifier.bind readsAs_named_identifier
    (fun target => (closing target).trivia_bind)
    (Grammar.detached_trivia_append (Completable.character _).possible)
  exact name.trivia_bind.sign_bind '(' rfl

theorem readsAs_quantifier : quantifier.ReadsAs anyQuantifier := by
  intro arrow start stop equal
  rcases done_quantifier_iff.mp equal with ⟨_, word⟩ | ⟨_, word⟩
  · exact Cursor.spells_either_iff.mpr (.inl word)
  · exact Cursor.spells_either_iff.mpr (.inr word)

theorem completable_quantifier : quantifier.Completable anyQuantifier where
  viable := .orElse (((viable_keyword "any").bind_pure _).mono fun _ _ spelled => .inl spelled)
    (((viable_keyword "all").bind_pure _).mono fun _ _ spelled => .inr spelled)
  possible _ := ⟨_, .inl rfl⟩

theorem completable_walkTarget : walkTarget.Completable anyWalk := by
  have target := Completable.named_identifier.commit.bind_pure (Prod.mk Arrow.each)
  have arrow := (target.trivia_bind.exactly_bind ['-', '>'] rfl).trivia_bind
  have inParentheses (quantifier : Arrow) :=
    completable_targetInParentheses.commit.bind_pure (Prod.mk quantifier)
  have quantified := (completable_quantifier.bind readsAs_quantifier inParentheses
    detached_anyTargetInParentheses).sign_bind '.' rfl
  exact .orElse (arrow.mono arrow_within_anyWalk) (quantified.mono quantified_within_anyWalk)

/-! ## Operands -/

def anyOperand : Spelling :=
  anyOf WellShaped (Grammar.operand Grammar.expression)

def anyExpression : Spelling :=
  anyOf WellShaped Grammar.expression

theorem nil_within_anyOperand : Within (Grammar.word "nil") anyOperand :=
  fun _ _ spelled => ⟨.nothing, .nothing, .inl spelled⟩

theorem possible_anyOperand : anyOperand.Possible :=
  (Spelling.possible_exactly _).mono nil_within_anyOperand

theorem possible_anyExpression : anyExpression.Possible :=
  possible_anyOperand.mono (Spelling.anyOf_mono Grammar.expression_of_operand)

theorem parentheses_within_anyOperand :
    Within (Grammar.sign '(' ++
      (Grammar.trivia ++ (anyExpression ++ (Grammar.trivia ++ Grammar.sign ')')))) anyOperand := by
  apply Within.of_spells
  intro start stop spells
  simp only [anyExpression, Cursor.spells_append_iff, Cursor.spells_anyOf_iff] at spells
  rcases spells with ⟨_, opening, _, front, _, ⟨expression, shaped, inner⟩, _, back, closing⟩
  refine Cursor.spells_anyOf_iff.mpr ⟨expression, shaped, Cursor.spells_either_iff.mpr (.inr ?_)⟩
  exact (((opening.append front).append inner).append back).append closing

theorem walk_within_anyOperand :
    Within (anyOf Name.CanBeRead .name ++ anyWalk) anyOperand := by
  apply Within.of_spells
  intro start stop spells
  simp only [anyWalk, Cursor.spells_append_iff, Cursor.spells_anyOf_iff,
    Cursor.spells_oneOf_iff] at spells
  rcases spells with ⟨_, ⟨relation, canBeRead, name⟩, arrow, target, isIdentifier, walk⟩
  refine Cursor.spells_anyOf_iff.mpr ⟨.walk arrow relation target, .walk canBeRead isIdentifier, ?_⟩
  exact Cursor.spells_either_iff.mpr (.inl (name.append walk))

/-- An operand that is neither the word `nil` nor stands in parentheses. -/
theorem begins_of_fails_memberOrWalk {start : Cursor} {failure : Failure}
    (notNil : (keyword "nil").Rejects start) (fails : memberOrWalk.Fails start failure) :
    start.Begins anyOperand failure.stop := by
  rcases fails_bind_iff.mp fails with fails | ⟨name, middle, nameEqual, fails⟩
  · rw [stop_of_fails_identifier (fails_named_iff.mp fails)]
    exact .refl start _
  have walkFails : (perhaps walkTarget).Fails middle failure := by
    rcases fails_bind_iff.mp fails with fails | ⟨found, _, _, fails⟩
    · exact fails
    · cases found <;> exact absurd fails not_fails_pure
  rcases done_named_identifier_iff.mp nameEqual with ⟨isIdentifier, nameSpells⟩
  have canBeRead : name.CanBeRead := by
    refine ⟨isIdentifier, fun isNil => ?_⟩
    have exactSpells := (Cursor.spells_name_iff.mp nameSpells).2
    rw [isNil] at exactSpells
    rcases notNil with ⟨other, rejected⟩
    have done : (keyword "nil").run start = .done () middle :=
      (done_keyword_iff rfl).mpr exactSpells
    rw [done] at rejected
    cases rejected
  refine Cursor.Begins.mono ?_ walk_within_anyOperand
  exact .append (Cursor.spells_anyOf_iff.mpr ⟨name, canBeRead, nameSpells⟩)
    (completable_walkTarget.viable.perhaps walkFails) (detached_anyWalk.continues _)

theorem Sound.readsAs {parser : Parser Expression} {spelling : Expression → Spelling}
    (sound : Sound parser spelling) : parser.ReadsAs (anyOf WellShaped spelling) := by
  intro expression start stop equal
  rcases sound equal with ⟨shaped, spells, _⟩
  exact Cursor.spells_anyOf_iff.mpr ⟨expression, shaped, spells⟩

theorem completable_operand {inner : Parser Expression} (sound : Sound inner Grammar.expression)
    (completable : inner.Completable anyExpression) : (operand inner).Completable anyOperand := by
  have closing (expression : Expression) := ((Completable.character ')').trivia_bind.commit
    ).bind_pure fun _ => expression
  have readsAs : (commit inner).ReadsAs anyExpression :=
    Sound.readsAs fun _ _ _ equal => sound (done_commit_iff.mp equal)
  have inside := completable.commit.bind readsAs closing
    (detached_trivia_append (Completable.character _).possible)
  have parentheses := inside.trivia_bind.sign_bind '(' rfl
  refine Completable.within ⟨fun start failure fails => ?_, possible_anyOperand⟩ _
  rcases fails_orElse_iff.mp fails with aborts | ⟨noNil, fails⟩
  · exact ((viable_keyword "nil").bind_pure _ aborts.fails).mono nil_within_anyOperand
  rcases fails_orElse_iff.mp fails with aborts | ⟨_, fails⟩
  · exact (parentheses.viable aborts.fails).mono parentheses_within_anyOperand
  · have noNilWord : (keyword "nil").Rejects start := by
      rcases rejects_bind_iff.mp noNil with rejects | ⟨_, _, _, rejects⟩
      · exact rejects
      · exact absurd rejects not_rejects_pure
    exact begins_of_fails_memberOrWalk noNilWord fails

/-! ## Operators -/

theorem viable_minus : minus.Viable (Grammar.sign '-') := by
  intro start failure fails
  rcases fails_bind_iff.mp fails with fails | ⟨_, middle, equal, fails⟩
  · rw [stop_of_fails_character fails]
    exact .refl start _
  · rw [stop_of_fails_notBefore fails]
    exact .of_spells ((done_character_iff_spells rfl).mp equal)

section Operators

variable {operator : Parser Unit} {sign : Char} {operand : Parser Expression}
  {spelling : Expression → Spelling} (isOperator : IsOperator operator sign)
  (notWord : isWordCharacter sign = false) (viableOperator : operator.Viable (Grammar.sign sign))
  (sound : Sound operand spelling) (completable : operand.Completable (anyOf WellShaped spelling))

include isOperator notWord viableOperator completable

theorem completable_operation :
    (operation operator operand).Completable
      (Grammar.between sign ++ anyOf WellShaped spelling) := by
  have behind := completable.commit.trivia_bind
  have continues : (Grammar.sign sign).Continues (Grammar.trivia ++ anyOf WellShaped spelling) :=
    (Spelling.punctuated_exactly (by simp [notWord])).continues behind.possible
  have fromSign : (operator >>= fun _ => trivia >>= fun _ => commit operand).Completable
      (Grammar.sign sign ++ (Grammar.trivia ++ anyOf WellShaped spelling)) :=
    { viable := .bind (fun _ _ _ equal => isOperator.spells equal) viableOperator
        (fun _ => behind.viable) continues
      possible := (Spelling.possible_exactly _).append continues }
  rw [Grammar.between, Spelling.append_assoc, Spelling.append_assoc]
  exact fromSign.trivia_bind

include sound

theorem completable_operands {combine : Expression → List Expression → Expression}
    (shapes : ∀ first more, (combine first more).WellShaped ↔
      first.WellShaped ∧ ∀ next ∈ more, next.WellShaped) :
    Completable
      (do
        let first ← operand
        let more ← many (operation operator operand)
        pure (combine first more))
      (anyOf WellShaped (Grammar.operation sign combine spelling)) := by
  let next := Grammar.between sign ++ anyOf WellShaped spelling
  have isOperation : Within (anyOf WellShaped spelling ++ repeated next)
      (anyOf WellShaped (Grammar.operation sign combine spelling)) := by
    apply Within.of_spells
    intro start stop spells
    rcases Cursor.spells_anyOf_iff.mp (spells.mono separated_of_repeated) with
      ⟨operands, ⟨notNil, shaped⟩, spells⟩
    cases operands with
    | nil => exact absurd rfl notNil
    | cons first more =>
        refine Cursor.spells_anyOf_iff.mpr ⟨combine first more,
          (shapes first more).mpr (List.forall_mem_cons.mp shaped), ?_⟩
        rcases Cursor.spells_append_iff.mp spells with ⟨middle, firstSpells, moreSpells⟩
        exact spells_operation_iff.mpr ⟨first, more, middle, rfl, firstSpells, moreSpells⟩
  have nextReadsAs : (operation operator operand).ReadsAs next := by
    intro expression start stop equal
    rcases of_done_operation isOperator sound equal with ⟨shaped, spells⟩
    rcases Cursor.spells_append_iff.mp spells with ⟨_, between, spells⟩
    exact between.append (Cursor.spells_anyOf_iff.mpr ⟨expression, shaped, spells⟩)
  have nextCompletable := completable_operation isOperator notWord viableOperator completable
  have more (first : Expression) : (many (operation operator operand) >>= fun more =>
      pure (combine first more)).Completable (repeated next) :=
    { viable := (Viable.many nextReadsAs nextCompletable.viable).bind_pure (combine first)
      possible := (Spelling.detached_repeated next).possible }
  exact (completable.bind sound.readsAs more (Spelling.detached_repeated next)).mono isOperation

end Operators

/-! ## Levels -/

theorem completable_unions {inner : Parser Expression} (sound : Sound inner Grammar.expression)
    (completable : inner.Completable anyExpression) :
    (unions (operand inner)).Completable anyExpression := by
  have operandSound := sound_operand sound
  have exclusionsSound : Sound (exclusions (operand inner)) _ :=
    sound_operands isOperator_minus operandSound wellShaped_foldl_exclusion_iff
  have intersectionsSound : Sound (intersections (operand inner)) _ :=
    sound_operands isOperator_ampersand exclusionsSound
      (wellShaped_flat_iff wellShaped_intersection_iff)
  have exclusions := completable_operands isOperator_minus rfl viable_minus operandSound
    (completable_operand sound completable) wellShaped_foldl_exclusion_iff
  have intersections := completable_operands isOperator_ampersand rfl
    (Completable.character _).viable exclusionsSound exclusions
    (wellShaped_flat_iff wellShaped_intersection_iff)
  have unions := completable_operands isOperator_plus rfl (Completable.character _).viable
    intersectionsSound intersections (wellShaped_flat_iff wellShaped_union_iff)
  refine unions.mono (Spelling.anyOf_mono fun expression => ?_)
  rw [Grammar.expression_eq]
  exact .refl _

theorem sound_nested_expression (depth : Nat) : Sound (nested depth) Grammar.expression := by
  intro expression start stop equal
  rcases sound_nested depth equal with ⟨shaped, spells, opens⟩
  exact ⟨shaped, Cursor.spells_oneOf_iff.mpr ⟨depth, spells⟩, opens⟩

theorem completable_nested (depth : Nat) : (nested depth).Completable anyExpression := by
  induction depth with
  | zero =>
      refine ⟨fun start failure fails => ?_, possible_anyExpression⟩
      rcases fails with equal | equal <;> cases equal
      exact .refl start _
  | succ depth induction =>
      exact completable_unions (fun _ _ _ equal => sound_nested_expression depth equal)
        ⟨fun _ _ fails => induction.viable fails, possible_anyExpression⟩

end Expression

theorem completable_expression : expression.Completable Expression.anyExpression where
  viable start failure fails := by
    have deep : expression.run start = (Expression.nested (start.rest.length + 1)).run start := rfl
    rw [Fails, deep] at fails
    exact (Expression.completable_nested _).viable fails
  possible := Expression.possible_anyExpression

end PermissionTypes.Schema
