import PermissionTypes.Proofs.Schema.Grammar

/-! The rules of the grammar. Expressions and types of parameters are built up depth by depth, but
no depth is special: what stands between parentheses may be any expression, and what stands as an
argument may be any type. -/

namespace PermissionTypes.Schema

namespace Spelling

/-! ## Comparing spellings -/

/-- All texts of the first spelling are texts of the second. -/
def Within (first second : Spelling) : Prop :=
  ∀ ⦃offset text⦄, first offset text → second offset text

namespace Within

theorem refl (spelling : Spelling) : Within spelling spelling :=
  fun _ _ spelled => spelled

theorem trans {first second third : Spelling} (front : Within first second)
    (back : Within second third) : Within first third :=
  fun _ _ spelled => back (front spelled)

theorem antisymm {first second : Spelling} (front : Within first second)
    (back : Within second first) : first = second := by
  funext offset text
  exact propext ⟨fun spelled => front spelled, fun spelled => back spelled⟩

end Within

def Increasing (family : Nat → Spelling) : Prop :=
  ∀ ⦃less more⦄, less ≤ more → Within (family less) (family more)

theorem Increasing.of_succ {family : Nat → Spelling}
    (grows : ∀ step, Within (family step) (family (step + 1))) : Increasing family := by
  intro less more le
  induction le with
  | refl => exact .refl _
  | step _ induction => exact induction.trans (grows _)

/-! ## Rules

A rule makes a spelling out of spellings for values. It has more texts if these have more, and none
of its texts takes more than one step of them. -/

structure IsRule (rule : (α → Spelling) → Spelling) : Prop where
  grows : ∀ {inner other : α → Spelling}, (∀ value, Within (inner value) (other value)) →
    Within (rule inner) (rule other)
  atStep : ∀ {family : Nat → α → Spelling},
    (∀ value, Increasing fun step => family step value) →
      Within (rule fun value => oneOf fun step => family step value)
        (oneOf fun step => rule (family step))

namespace IsRule

theorem value (value : α) : IsRule fun inner => inner value where
  grows within := within value
  atStep _ := .refl _

theorem constant (spelling : Spelling) : IsRule fun _ : α → Spelling => spelling where
  grows _ := .refl spelling
  atStep _ _ _ spelled := ⟨0, spelled⟩

theorem increasing {rule : (α → Spelling) → Spelling} (isRule : IsRule rule)
    {family : Nat → α → Spelling} (increasing : ∀ value, Increasing fun step => family step value) :
    Increasing fun step => rule (family step) :=
  fun _ _ le => isRule.grows fun value => increasing value le

theorem comp {outer : (β → Spelling) → Spelling} {inner : (α → Spelling) → β → Spelling}
    (isOuter : IsRule outer) (isInner : ∀ value, IsRule fun spelling => inner spelling value) :
    IsRule fun spelling => outer (inner spelling) where
  grows within := isOuter.grows fun value => (isInner value).grows within
  atStep increasing :=
    .trans (isOuter.grows fun value => (isInner value).atStep increasing)
      (isOuter.atStep fun value => (isInner value).increasing increasing)

theorem either {first second : (α → Spelling) → Spelling} (isFirst : IsRule first)
    (isSecond : IsRule second) : IsRule fun inner => either (first inner) (second inner) where
  grows within _ _ spelled :=
    spelled.imp (fun spelled => isFirst.grows within spelled)
      fun spelled => isSecond.grows within spelled
  atStep := by
    intro family increasing offset text spelled
    rcases spelled with spelled | spelled
    · rcases isFirst.atStep increasing spelled with ⟨step, spelled⟩
      exact ⟨step, .inl spelled⟩
    · rcases isSecond.atStep increasing spelled with ⟨step, spelled⟩
      exact ⟨step, .inr spelled⟩

theorem oneOf {rules : ι → (α → Spelling) → Spelling} (isRule : ∀ index, IsRule (rules index)) :
    IsRule fun inner => oneOf fun index => rules index inner where
  grows := by
    intro inner other within offset text spelled
    rcases spelled with ⟨index, spelled⟩
    exact ⟨index, (isRule index).grows within spelled⟩
  atStep := by
    intro family increasing offset text spelled
    rcases spelled with ⟨index, spelled⟩
    rcases (isRule index).atStep increasing spelled with ⟨step, spelled⟩
    exact ⟨step, index, spelled⟩

theorem provided (condition : Prop) {rule : (α → Spelling) → Spelling} (isRule : IsRule rule) :
    IsRule fun inner => provided condition (rule inner) where
  grows within _ _ spelled := ⟨spelled.1, isRule.grows within spelled.2⟩
  atStep := by
    intro family increasing offset text spelled
    rcases isRule.atStep increasing spelled.2 with ⟨step, written⟩
    exact ⟨step, spelled.1, written⟩

-- The two texts may take different steps. Both are texts of the later one.
theorem append {front back : (α → Spelling) → Spelling} (isFront : IsRule front)
    (isBack : IsRule back) : IsRule fun inner => front inner ++ back inner where
  grows := by
    intro inner other within offset text spelled
    rcases spelled with ⟨first, second, equal, apart, spelledFirst, spelledSecond⟩
    exact ⟨first, second, equal, apart, isFront.grows within spelledFirst,
      isBack.grows within spelledSecond⟩
  atStep := by
    intro family increasing offset text spelled
    rcases spelled with ⟨first, second, equal, apart, spelledFirst, spelledSecond⟩
    rcases isFront.atStep increasing spelledFirst with ⟨frontStep, spelledFirst⟩
    rcases isBack.atStep increasing spelledSecond with ⟨backStep, spelledSecond⟩
    refine ⟨max frontStep backStep, first, second, equal, apart, ?_, ?_⟩
    · exact isFront.increasing increasing (Nat.le_max_left frontStep backStep) spelledFirst
    · exact isBack.increasing increasing (Nat.le_max_right frontStep backStep) spelledSecond

theorem each {rules : β → (α → Spelling) → Spelling} (isRule : ∀ value, IsRule (rules value))
    (values : List β) : IsRule fun inner => each (fun value => rules value inner) values := by
  induction values with
  | nil => exact constant _
  | cons value values induction => exact append (isRule value) induction

theorem separated (separator : Spelling) {rules : β → (α → Spelling) → Spelling}
    (isRule : ∀ value, IsRule (rules value)) (values : List β) :
    IsRule fun inner => separated separator (fun value => rules value inner) values := by
  cases values with
  | nil => exact constant _
  | cons value values =>
      exact append (isRule value)
        (each (fun value => append (constant separator) (isRule value)) values)

/-- Built from nothing with a rule for each value, over and over, come the spellings that the rules
build from themselves. -/
theorem oneOf_eq {rules : (α → Spelling) → α → Spelling}
    (isRule : ∀ value, IsRule fun inner => rules inner value) (family : Nat → α → Spelling)
    (zero : ∀ value, family 0 value = never)
    (succ : ∀ step, family (step + 1) = rules (family step)) (value : α) :
    Spelling.oneOf (fun step => family step value) =
      rules (fun value => .oneOf fun step => family step value) value := by
  have grows : ∀ step value, Within (family step value) (family (step + 1) value) := by
    intro step
    induction step with
    | zero =>
        intro value offset text spelled
        rw [zero] at spelled
        exact spelled.elim
    | succ step induction =>
        rw [succ, succ (step + 1)]
        exact fun value => (isRule value).grows induction
  apply Within.antisymm
  · rintro offset text ⟨step, spelled⟩
    have next := grows step value spelled
    rw [succ] at next
    exact (isRule value).grows (fun _ _ _ spelled => ⟨step, spelled⟩) next
  · intro offset text spelled
    rcases (isRule value).atStep (fun value => .of_succ fun step => grows step value) spelled with
      ⟨step, spelled⟩
    rw [← succ] at spelled
    exact ⟨step + 1, spelled⟩

end IsRule
end Spelling

namespace Grammar

open Spelling (Within IsRule)

/-! ## Expressions -/

theorem isRule_operand (expression : Expression) : IsRule fun inner => operand inner expression :=
  .either (.constant _)
    (.append (.append (.append (.constant _) (.value expression)) (.constant _)) (.constant _))

theorem isRule_operation (operator : Char) (combine : Expression → List Expression → Expression)
    (expression : Expression) : IsRule fun inner => operation operator combine inner expression :=
  .oneOf fun first => .oneOf fun more => .provided _ (.separated _ .value (first :: more))

theorem isRule_unions (expression : Expression) :
    IsRule fun inner => unions (operand inner) expression :=
  (isRule_operation '+' _ expression).comp fun expression =>
    (isRule_operation '&' _ expression).comp fun expression =>
      (isRule_operation '-' _ expression).comp isRule_operand

theorem expression_eq (written : Expression) :
    expression written = unions (operand expression) written :=
  IsRule.oneOf_eq isRule_unions nested (fun _ => rfl) (fun _ => rfl) written

/-! ### Parentheses around operands

Each operand may stand in parentheses, and unions, intersections and exclusions of such operands
are expressions, whatever the operands are. -/

theorem operation_of_operand (operator : Char)
    {combine : Expression → List Expression → Expression}
    (alone : ∀ first, combine first [] = first) (operand : Expression → Spelling)
    (written : Expression) :
    Within (operand written) (operation operator combine operand written) := by
  intro offset text spelled
  refine ⟨written, [], (alone written).symm, text, [], ?_, Apart.nil_right text, spelled, rfl⟩
  rw [List.append_nil]

theorem exclusions_of_operand (written : Expression) :
    Within (operand expression written) (exclusions (operand expression) written) :=
  operation_of_operand '-' (fun _ => rfl) _ written

theorem intersections_of_exclusions (written : Expression) :
    Within (exclusions (operand expression) written) (intersections (operand expression) written) :=
  operation_of_operand '&' (fun _ => rfl) _ written

theorem expression_of_intersections (written : Expression) :
    Within (intersections (operand expression) written) (expression written) := by
  rw [expression_eq]
  exact operation_of_operand '+' (fun _ => rfl) _ written

theorem expression_of_operand (written : Expression) :
    Within (operand expression written) (expression written) :=
  (exclusions_of_operand written).trans
    ((intersections_of_exclusions written).trans (expression_of_intersections written))

/-! ## Types of parameters -/

theorem isRule_typeShape : IsRule fun inner : Unit → Spelling => typeShape (inner ()) :=
  .append (.constant _) (.either (.constant _) (.oneOf fun more =>
    .append (.append (.append (.constant _)
      (.separated _ (fun _ => .value ()) (() :: more))) (.constant _)) (.constant _)))

theorem parameterType_eq : parameterType = typeShape parameterType :=
  IsRule.oneOf_eq (fun _ => isRule_typeShape) (fun depth _ => nestedType depth)
    (fun _ => rfl) (fun _ => rfl) ()

end Grammar
end PermissionTypes.Schema
