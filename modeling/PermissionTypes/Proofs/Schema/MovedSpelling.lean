import PermissionTypes.Proofs.Schema.Moving

/-! The grammar of a schema that is moved: behind other text, the items with larger places are
spelled by the texts that spelled the items before. -/

namespace PermissionTypes.Schema

/-! ## Spellings -/

namespace Spelling

/-- Behind more text, the second spelling has the texts that the first one has. -/
def MovesTo (distance : Nat) (spelling moved : Spelling) : Prop :=
  ∀ ⦃offset text⦄, spelling offset text → moved (offset + distance) text

namespace MovesTo

variable {distance : Nat}

theorem of_anywhere {spelling : Spelling} (anywhere : spelling.Anywhere) :
    spelling.MovesTo distance spelling :=
  fun _ _ spelled => anywhere spelled

theorem exactly (text : List Char) : (exactly text).MovesTo distance (.exactly text) :=
  of_anywhere (.exactly text)

theorem language (belongs : List Char → Prop) :
    (language belongs).MovesTo distance (.language belongs) :=
  of_anywhere (.language belongs)

theorem name (name : Name) :
    (Spelling.name name).MovesTo distance (.name (name.moved distance)) :=
  fun _ _ spelled => ⟨congrArg (· + distance) spelled.1, spelled.2⟩

theorem append {front back movedFront movedBack : Spelling}
    (frontMoves : front.MovesTo distance movedFront)
    (backMoves : back.MovesTo distance movedBack) :
    (front ++ back).MovesTo distance (movedFront ++ movedBack) := by
  intro offset text spelled
  rcases spelled with ⟨first, second, equal, apart, firstSpelled, secondSpelled⟩
  refine ⟨first, second, equal, apart, frontMoves firstSpelled, ?_⟩
  rw [Nat.add_right_comm]
  exact backMoves secondSpelled

theorem either {first second movedFirst movedSecond : Spelling}
    (firstMoves : first.MovesTo distance movedFirst)
    (secondMoves : second.MovesTo distance movedSecond) :
    (either first second).MovesTo distance (.either movedFirst movedSecond) :=
  fun _ _ spelled => spelled.imp (fun spelled => firstMoves spelled)
    fun spelled => secondMoves spelled

theorem each {spelling : α → Spelling} {movedSpelling : β → Spelling} {change : α → β}
    (moves : ∀ value, (spelling value).MovesTo distance (movedSpelling (change value)))
    (values : List α) :
    (each spelling values).MovesTo distance (.each movedSpelling (values.map change)) := by
  induction values with
  | nil => exact exactly []
  | cons value values induction => exact (moves value).append induction

theorem separated {separator : Spelling} (separatorMoves : separator.MovesTo distance separator)
    {spelling : α → Spelling} {movedSpelling : β → Spelling} {change : α → β}
    (moves : ∀ value, (spelling value).MovesTo distance (movedSpelling (change value)))
    (values : List α) :
    (separated separator spelling values).MovesTo distance
      (.separated separator movedSpelling (values.map change)) := by
  cases values with
  | nil => exact exactly []
  | cons value values =>
      apply (moves value).append
      apply each
      intro next
      exact separatorMoves.append (moves next)

end MovesTo
end Spelling

/-! ## Grammar -/

namespace Grammar

open Spelling (MovesTo)

variable {distance : Nat}

theorem moves_trivia : trivia.MovesTo distance trivia :=
  .language IsTrivia

theorem moves_gap : gap.MovesTo distance gap :=
  .language _

theorem moves_between (separator : Char) :
    (between separator).MovesTo distance (between separator) :=
  (moves_trivia.append (.exactly _)).append moves_trivia

theorem moves_inParentheses {inner moved : Spelling} (moves : inner.MovesTo distance moved) :
    (inParentheses inner).MovesTo distance (inParentheses moved) :=
  ((((MovesTo.exactly _).append moves_trivia).append moves).append moves_trivia).append
    (.exactly _)

/-! ### Expressions -/

theorem moves_walkTarget (target : Name) (arrow : Arrow) :
    (walkTarget target arrow).MovesTo distance (walkTarget (target.moved distance) arrow) := by
  cases arrow with
  | each => exact ((moves_trivia.append (.exactly _)).append moves_trivia).append (.name target)
  | any =>
      exact ((MovesTo.exactly _).append (.exactly _)).append (moves_inParentheses (.name target))
  | all =>
      exact ((MovesTo.exactly _).append (.exactly _)).append (moves_inParentheses (.name target))

theorem moves_simple (expression : Expression) :
    (simple expression).MovesTo distance (simple (expression.moved distance)) := by
  cases expression with
  | nothing => exact .exactly _
  | member name => exact .name name
  | walk arrow relation target =>
      exact (MovesTo.name relation).append (moves_walkTarget target arrow)
  | union operands => exact .of_anywhere .never
  | intersection operands => exact .of_anywhere .never
  | exclusion base removed => exact .of_anywhere .never

def Moves (distance : Nat) (spelling : Expression → Spelling) : Prop :=
  ∀ expression, (spelling expression).MovesTo distance (spelling (expression.moved distance))

theorem Moves.operand {inner : Expression → Spelling} (moves : Moves distance inner) :
    Moves distance (operand inner) :=
  fun expression => (moves_simple expression).either (moves_inParentheses (moves expression))

theorem Moves.operation {operand : Expression → Spelling} (moves : Moves distance operand)
    {combine : Expression → List Expression → Expression}
    (combines : ∀ first more, (combine first more).moved distance =
      combine (first.moved distance) (more.map (Expression.moved distance)))
    (operator : Char) : Moves distance (operation operator combine operand) := by
  intro expression offset text spelled
  rcases spelled with ⟨first, more, rfl, spelled⟩
  refine ⟨first.moved distance, more.map (Expression.moved distance), combines first more, ?_⟩
  exact MovesTo.separated (moves_between operator) moves (first :: more) spelled

theorem moved_foldl_exclusion (first : Expression) (more : List Expression) :
    (more.foldl .exclusion first).moved distance =
      (more.map (Expression.moved distance)).foldl .exclusion (first.moved distance) := by
  induction more generalizing first with
  | nil => rfl
  | cons next more induction =>
      rw [List.foldl_cons, induction, Expression.moved, List.map_cons, List.foldl_cons]

theorem moved_flat {combine : List Expression → Expression}
    (combines : ∀ operands, (combine operands).moved distance =
      combine (operands.map (Expression.moved distance)))
    (first : Expression) (more : List Expression) :
    (Expression.flat combine first more).moved distance =
      Expression.flat combine (first.moved distance) (more.map (Expression.moved distance)) := by
  cases more with
  | nil => rfl
  | cons next more => exact combines (first :: next :: more)

theorem Moves.unions {operand : Expression → Spelling} (moves : Moves distance operand) :
    Moves distance (unions operand) := by
  apply Moves.operation
  · apply Moves.operation
    · exact moves.operation moved_foldl_exclusion '-'
    · apply moved_flat
      intro operands
      rw [Expression.moved, Expression.movedAll_eq]
  · apply moved_flat
    intro operands
    rw [Expression.moved, Expression.movedAll_eq]

theorem moves_expression : Moves distance expression := by
  intro written offset text spelled
  rcases spelled with ⟨depth, spelled⟩
  have moves : Moves distance (nested depth) := by
    clear spelled
    induction depth with
    | zero => exact fun _ => .of_anywhere .never
    | succ depth induction => exact induction.operand.unions
  exact ⟨depth, moves written spelled⟩

/-! ### Members -/

theorem moves_subject (written : Subject) :
    (subject written).MovesTo distance (subject (written.moved distance)) := by
  cases written with
  | object => exact .exactly _
  | everyone => exact .exactly _
  | relation name => exact (MovesTo.exactly _).append (.name name)

theorem moves_traits (written : List Name) :
    (traits written).MovesTo distance (traits (written.map (Name.moved distance))) := by
  cases written with
  | nil => exact .exactly _
  | cons first more =>
      apply MovesTo.append (.append (.append moves_gap (.exactly _)) moves_gap)
      exact .separated (.append (.append moves_gap (.exactly _)) moves_gap) .name (first :: more)

theorem moves_subjectType (written : SubjectType) :
    (subjectType written).MovesTo distance (subjectType (written.moved distance)) :=
  ((MovesTo.name written.type).append (moves_subject written.subject)).append
    (moves_traits written.traits)

theorem moves_member (written : Member) :
    (member written).MovesTo distance (member (written.moved distance)) := by
  cases written with
  | relation name types =>
      exact ((((MovesTo.exactly _).append moves_gap).append (.name name)).append
        (moves_between ':')).append (MovesTo.separated (moves_between '|') moves_subjectType types)
  | permission name permitted =>
      exact ((((MovesTo.exactly _).append moves_gap).append (.name name)).append
        (moves_between '=')).append (moves_expression permitted)

/-! ### Items -/

/-- Names of parameters have no places. -/
theorem moves_parameters (written : List Parameter) :
    (parameters written).MovesTo distance (parameters written) := by
  apply MovesTo.of_anywhere
  have parameterAnywhere (written : Parameter) : (parameter written).Anywhere :=
    .append (.append (.exactly _) (.language _)) (.exactly _)
  have commaAnywhere : (between ',').Anywhere :=
    .append (.append (.language _) (.exactly _)) (.language _)
  cases written with
  | nil => exact .language _
  | cons first more =>
      exact .append (.append (.language _)
        (.separated commaAnywhere parameterAnywhere (first :: more))) (.language _)

theorem moves_members (written : List Member) :
    (Spelling.each (fun entry => member entry ++ trivia) written).MovesTo distance
      (.each (fun entry => member entry ++ trivia) (written.map (Member.moved distance))) := by
  apply MovesTo.each
  intro entry
  exact .append (moves_member entry) moves_trivia

theorem moves_item (written : Item) :
    (item written).MovesTo distance (item (written.moved distance)) := by
  cases written with
  | feature name => exact .append (.append (.exactly _) moves_gap) (.name name)
  | caveat declared =>
      exact .append (.append (.append (.append (.append (.append (.append (.append (.append (.append
        (.exactly _) moves_gap) (.name _)) moves_trivia) (.exactly _)) (moves_parameters _))
        (.exactly _)) moves_trivia) (.exactly _)) (.exactly _)) (.exactly _)
  | definition declared =>
      exact .append (.append (.append (.append (.append (.exactly _) moves_gap) (.name _))
        (moves_between '{')) (moves_members declared.members)) (.exactly _)

theorem moves_items (written : List Item) :
    (items written).MovesTo distance (items (written.map (Item.moved distance))) := by
  apply MovesTo.append moves_trivia
  apply MovesTo.each
  intro entry
  exact .append (moves_item entry) moves_trivia

end Grammar

end PermissionTypes.Schema
