import PermissionTypes.Schema.Caveat
import PermissionTypes.Schema.Expression

/-! Parsers that agree wherever few enough characters are left. A nested construct is always
shorter than the one around it, so the bound on the depth of expressions and types can be forgotten:
each of them is read by the rule for one level, applied to itself. -/

namespace PermissionTypes.Schema

namespace Parser

def AgreeWithin (length : Nat) (first second : Parser α) : Prop :=
  ∀ cursor : Cursor, cursor.rest.length ≤ length → first.run cursor = second.run cursor

def AgreeBelow (length : Nat) (first second : Parser α) : Prop :=
  ∀ cursor : Cursor, cursor.rest.length < length → first.run cursor = second.run cursor

namespace AgreeWithin

theorem refl (length : Nat) (parser : Parser α) : AgreeWithin length parser parser :=
  fun _ _ => rfl

theorem bind {first second : Parser α} {firstNext secondNext : α → Parser β}
    (agree : AgreeWithin length first second)
    (agreeNext : ∀ value, AgreeWithin length (firstNext value) (secondNext value)) :
    AgreeWithin length (first >>= firstNext) (second >>= secondNext) := by
  intro cursor short
  change (Parser.bind first firstNext).run cursor = (Parser.bind second secondNext).run cursor
  simp only [Parser.bind, ← agree cursor short]
  split
  · rename_i value stop equal
    exact agreeNext value stop (Nat.le_trans (reaches_of_done equal).length_le short)
  · rfl
  · rfl

theorem bind_right (parser : Parser α) {first second : α → Parser β}
    (agree : ∀ value, AgreeWithin length (first value) (second value)) :
    AgreeWithin length (parser >>= first) (parser >>= second) :=
  bind (refl length parser) agree

theorem bind_left {first second : Parser α} (next : α → Parser β)
    (agree : AgreeWithin length first second) :
    AgreeWithin length (first >>= next) (second >>= next) :=
  bind agree fun value => refl length (next value)

theorem character_bind {wanted : Char} {first second : Parser α}
    (agree : AgreeBelow length first second) :
    AgreeWithin length (character wanted >>= fun _ => first)
      (character wanted >>= fun _ => second) := by
  intro cursor short
  change (Parser.bind _ _).run cursor = (Parser.bind _ _).run cursor
  simp only [Parser.bind]
  split
  · rename_i stop equal
    apply agree
    cases restEqual : cursor.rest with
    | nil => simp [character, restEqual] at equal
    | cons head tail =>
        simp only [character, restEqual] at equal
        split at equal
        · cases equal
          rw [restEqual, List.length_cons] at short
          exact short
        · cases equal
  · rfl
  · rfl

theorem orElse {first firstOther second secondOther : Parser α}
    (agree : AgreeWithin length first firstOther)
    (agreeSecond : AgreeWithin length second secondOther) :
    AgreeWithin length (first <|> second) (firstOther <|> secondOther) := by
  intro cursor short
  change (Parser.orElse _ _).run cursor = (Parser.orElse _ _).run cursor
  simp only [Parser.orElse, ← agree cursor short]
  split
  · rfl
  · exact agreeSecond cursor short
  · rfl

theorem perhaps {first second : Parser α} (agree : AgreeWithin length first second) :
    AgreeWithin length (perhaps first) (perhaps second) := by
  intro cursor short
  simp only [Parser.perhaps, agree cursor short]

theorem commit {first second : Parser α} (agree : AgreeWithin length first second) :
    AgreeWithin length (commit first) (commit second) := by
  intro cursor short
  simp only [Parser.commit, agree cursor short]

theorem within {first second : Parser α} (construct : Construct)
    (agree : AgreeWithin length first second) :
    AgreeWithin length (within construct first) (within construct second) := by
  intro cursor short
  simp only [Parser.within, agree cursor short]

theorem many {first second : Parser α} (agree : AgreeWithin length first second) :
    AgreeWithin length (many first) (many second) := by
  intro cursor short
  induction bound : cursor.rest.length using Nat.strongRecOn generalizing cursor with
  | ind size induction =>
      rw [run_many, run_many, ← agree cursor short]
      split
      · rename_i value next equal
        split
        · rename_i moved
          have shorter := (reaches_of_done equal).length_lt moved
          rw [induction next.rest.length (bound ▸ shorter) next (by omega) rfl]
        · rfl
      · rfl
      · rfl

end AgreeWithin

namespace AgreeBelow

theorem within {first second : Parser α} (agree : AgreeBelow length first second)
    (shorter : size < length) : AgreeWithin size first second :=
  fun cursor short => agree cursor (Nat.lt_of_le_of_lt short shorter)

theorem of_within {first second : Parser α}
    (agree : ∀ size, size < length → AgreeWithin size first second) :
    AgreeBelow length first second :=
  fun cursor shorter => agree cursor.rest.length shorter cursor (Nat.le_refl cursor.rest.length)

end AgreeBelow

/-! ## Nesting -/

/-- A rule for one level, given how the levels inside it are read. Two ways to read those only have
to agree on rests that are shorter. -/
def Shortens (level : Parser α → Parser α) : Prop :=
  ∀ {length first second}, AgreeBelow length first second →
    AgreeWithin length (level first) (level second)

/-- A parser for each depth, where the next depth reads by the rule for one level. From the depth
on that exceeds the number of characters left, they all agree. -/
theorem agreeWithin_of_shortens {level : Parser α → Parser α} (shortens : Shortens level)
    (nested : Nat → Parser α) (next : ∀ depth, nested (depth + 1) = level (nested depth))
    {length first second : Nat} (firstDeep : length < first) (secondDeep : length < second) :
    AgreeWithin length (nested first) (nested second) := by
  induction length using Nat.strongRecOn generalizing first second with
  | ind length induction =>
      cases first with
      | zero => exact absurd firstDeep (Nat.not_lt_zero length)
      | succ first =>
          cases second with
          | zero => exact absurd secondDeep (Nat.not_lt_zero length)
          | succ second =>
              rw [next, next]
              apply shortens
              apply AgreeBelow.of_within
              intro size shorter
              exact induction size shorter (by omega) (by omega)

/-- A parser that is as deep as there are characters left reads one level by the rule, and what is
inside by itself. -/
theorem run_of_shortens {level : Parser α → Parser α} (shortens : Shortens level)
    (nested : Nat → Parser α) (next : ∀ depth, nested (depth + 1) = level (nested depth))
    {parser : Parser α}
    (deep : ∀ cursor, parser.run cursor = (nested (cursor.rest.length + 1)).run cursor)
    (cursor : Cursor) : parser.run cursor = (level parser).run cursor := by
  rw [deep, next]
  apply shortens ?_ cursor (Nat.le_refl cursor.rest.length)
  intro inner shorter
  rw [deep]
  exact agreeWithin_of_shortens shortens nested next shorter (Nat.lt_succ_self _) inner
    (Nat.le_refl _)

end Parser

open Schema.Parser

/-! ## Expressions -/

namespace Expression

theorem operand_agree {first second : Parser Expression}
    (agree : AgreeBelow length first second) :
    AgreeWithin length (operand first) (operand second) := by
  apply AgreeWithin.within
  apply AgreeWithin.orElse (AgreeWithin.refl _ _)
  apply AgreeWithin.orElse _ (AgreeWithin.refl _ _)
  apply AgreeWithin.character_bind
  apply AgreeBelow.of_within
  intro size shorter
  apply AgreeWithin.bind_right
  intro _
  exact AgreeWithin.bind_left _ (AgreeWithin.commit (agree.within shorter))

theorem operation_agree {operator : Parser Unit} {first second : Parser Expression}
    (agree : AgreeWithin length first second) :
    AgreeWithin length (operation operator first) (operation operator second) := by
  apply AgreeWithin.bind_right
  intro _
  apply AgreeWithin.bind_right
  intro _
  apply AgreeWithin.bind_right
  intro _
  exact AgreeWithin.commit agree

private theorem operands_agree {operator : Parser Unit} {first second : Parser Expression}
    (combine : Expression → List Expression → Expression)
    (agree : AgreeWithin length first second) :
    AgreeWithin length
      (do
        let head ← first
        let more ← many (operation operator first)
        pure (combine head more))
      (do
        let head ← second
        let more ← many (operation operator second)
        pure (combine head more)) := by
  apply AgreeWithin.bind agree
  intro _
  exact AgreeWithin.bind_left _ (AgreeWithin.many (operation_agree agree))

theorem unions_agree {first second : Parser Expression}
    (agree : AgreeWithin length first second) :
    AgreeWithin length (unions first) (unions second) := by
  apply operands_agree
  apply operands_agree
  apply operands_agree
  exact agree

theorem unions_shortens : Shortens fun inner => unions (operand inner) :=
  fun agree => unions_agree (operand_agree agree)

end Expression

theorem run_expression (cursor : Cursor) :
    expression.run cursor = (Expression.unions (Expression.operand expression)).run cursor :=
  run_of_shortens Expression.unions_shortens Expression.nested (fun _ => rfl) (fun _ => rfl) cursor

/-! ## Parameter types -/

namespace Parameter

theorem typeShape_shortens : Shortens typeShape := by
  intro length first second agree
  apply AgreeWithin.bind_right
  intro _
  apply AgreeWithin.bind_left
  apply AgreeWithin.perhaps
  apply AgreeWithin.character_bind
  apply AgreeBelow.of_within
  intro size shorter
  have agreeHere := agree.within shorter
  apply AgreeWithin.bind_right
  intro _
  apply AgreeWithin.bind_left
  apply AgreeWithin.bind agreeHere
  intro _
  apply AgreeWithin.bind_left
  apply AgreeWithin.many
  exact AgreeWithin.bind_right _ fun _ => agreeHere

theorem run_wholeType (cursor : Cursor) :
    wholeType.run cursor = (typeShape wholeType).run cursor :=
  run_of_shortens typeShape_shortens nestedType (fun _ => rfl) (fun _ => rfl) cursor

end Parameter

end PermissionTypes.Schema
