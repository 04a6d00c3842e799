import PermissionTypes.Proofs.Schema.WellFormedness

/-! The uses of an expression: the operands, at whatever depth, that name something. What has to be
known about an expression is known once it is known about each of its uses. -/

namespace PermissionTypes.Schema

/-! ## Expressions -/

namespace Expression

/-- Operators have lists of operands, and a property passes from all operands of a list to the
expression around them. -/
@[elab_as_elim]
theorem induction_on_operands {motive : Expression → Prop}
    (nothing : motive .nothing)
    (member : ∀ name, motive (.member name))
    (walk : ∀ arrow relation target, motive (.walk arrow relation target))
    (union : ∀ operands, (∀ operand ∈ operands, motive operand) → motive (.union operands))
    (intersection : ∀ operands, (∀ operand ∈ operands, motive operand) →
      motive (.intersection operands))
    (exclusion : ∀ base removed, motive base → motive removed →
      motive (.exclusion base removed))
    (expression : Expression) : motive expression :=
  @Expression.rec motive (fun operands => ∀ operand ∈ operands, motive operand)
    nothing member walk union intersection exclusion (List.forall_mem_nil _)
    (fun _ _ first more => List.forall_mem_cons.mpr ⟨first, more⟩) expression

end Expression

inductive Use where
  | member (name : Name)
  | walk (arrow : Arrow) (relation target : Name)
  deriving DecidableEq, Repr

namespace Expression

mutual
def uses : Expression → List Use
  | .nothing => []
  | .member name => [.member name]
  | .walk arrow relation target => [.walk arrow relation target]
  | .union operands => usesOfAll operands
  | .intersection operands => usesOfAll operands
  | .exclusion base removed => base.uses ++ removed.uses

def usesOfAll : List Expression → List Use
  | [] => []
  | operand :: operands => operand.uses ++ usesOfAll operands
end

theorem usesOfAll_eq (operands : List Expression) : usesOfAll operands = operands.flatMap uses := by
  induction operands with
  | nil => rfl
  | cons operand operands induction => rw [usesOfAll, induction, List.flatMap_cons]

end Expression

/-! ## Meaning -/

def Use.Resolves (items : List Item) (definition : Definition) : Use → Prop
  | .member name => definition.HasMember name.text
  | .walk _ name target => ∃ relation types, .relation relation types ∈ definition.members ∧
      relation.text = name.text ∧ WalkArrives items types target.text

/-- Some subjects that are not everyone are of a type that has the member. -/
def ArrivesAtObject (items : List Item) (types : List SubjectType) (target : String) : Prop :=
  ∃ subjects ∈ types, subjects.subject ≠ .everyone ∧
    ∃ definition, Defines items subjects.type.text definition ∧ definition.HasMember target

namespace Expression

variable {items : List Item} {definition : Definition}

theorem forall_uses_iff {operands : List Expression} {holds : Use → Prop} :
    (∀ use ∈ usesOfAll operands, holds use) ↔
      ∀ operand ∈ operands, ∀ use ∈ operand.uses, holds use := by
  rw [usesOfAll_eq]
  simp only [List.mem_flatMap, forall_exists_index, and_imp]
  exact forall_comm.trans (forall_congr' fun _ => forall_comm)

theorem resolves_iff {expression : Expression} :
    expression.Resolves items definition ↔
      ∀ use ∈ expression.uses, use.Resolves items definition := by
  induction expression using induction_on_operands with
  | nothing => exact iff_of_true .nothing (List.forall_mem_nil _)
  | member name =>
      rw [uses, List.forall_mem_singleton]
      constructor
      · intro resolves
        cases resolves with
        | member found => exact found
      · exact .member
  | walk arrow relation target =>
      rw [uses, List.forall_mem_singleton]
      constructor
      · intro resolves
        cases resolves with
        | walk found same arrives => exact ⟨_, _, found, same, arrives⟩
      · intro resolves
        rcases resolves with ⟨_, _, found, same, arrives⟩
        exact .walk found same arrives
  | union operands induction =>
      rw [uses, forall_uses_iff, ← forall₂_congr induction]
      constructor
      · intro resolves
        cases resolves with
        | union resolve => exact resolve
      · exact .union
  | intersection operands induction =>
      rw [uses, forall_uses_iff, ← forall₂_congr induction]
      constructor
      · intro resolves
        cases resolves with
        | intersection resolve => exact resolve
      · exact .intersection
  | exclusion base removed baseInduction removedInduction =>
      rw [uses, List.forall_mem_append, ← baseInduction, ← removedInduction]
      constructor
      · intro resolves
        cases resolves with
        | exclusion baseResolves removedResolves => exact ⟨baseResolves, removedResolves⟩
      · intro resolves
        exact .exclusion resolves.1 resolves.2

end Expression
end PermissionTypes.Schema
