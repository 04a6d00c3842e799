import PermissionTypes.Proofs.Schema.DeclarationChecks

/-! References are checked against the declarations, which reflect all items. A check succeeds
exactly where every name that is used leads to a declaration, and what it answers is the projection
of the items. -/

namespace PermissionTypes.Schema

namespace Definition

theorem isSome_member?_iff {definition : Definition} {name : String} :
    (definition.member? name).isSome = true ↔ definition.HasMember name :=
  find?_isSome_iff

end Definition

namespace Declarations

variable {declarations : Declarations} {items : List Item}

/-! ## Relations -/

theorem checkTrait_eq_ok_iff (reflects : declarations.Reflects items) {type relation : String}
    {trait : Name} :
    declarations.checkTrait type relation trait = .ok () ↔ TraitResolves items trait := by
  rw [checkTrait]
  split
  · rename_i expires
    rw [expirationTrait, beq_iff_eq] at expires
    rw [accept_eq_ok_iff, reflects.expiration, TraitResolves]
    simp [expires]
  · rename_i other
    rw [expirationTrait, beq_iff_eq] at other
    rw [accept_eq_ok_iff, reflects.caveat, TraitResolves]
    simp [other]

theorem checkSubjectRelation_eq_ok_iff {type relation : String} {target : Definition}
    {subject : Subject} :
    checkSubjectRelation type relation target subject = .ok () ↔
      ∀ name, subject = .relation name → target.HasMember name.text := by
  cases subject with
  | object => simp [checkSubjectRelation]
  | everyone => simp [checkSubjectRelation]
  | relation name =>
      rw [checkSubjectRelation, accept_eq_ok_iff, Definition.isSome_member?_iff]
      simp

theorem definition?_unique (reflects : declarations.Reflects items) {name : String}
    {first second : Definition} (firstDefined : Defines items name first)
    (secondDefined : Defines items name second) : first = second := by
  have firstFound := (reflects.definition name first).mpr firstDefined
  have secondFound := (reflects.definition name second).mpr secondDefined
  rw [firstFound] at secondFound
  exact Option.some.inj secondFound

theorem checkSubjectType_eq_ok_iff (reflects : declarations.Reflects items)
    {type relation : String} {subjects : SubjectType} :
    declarations.checkSubjectType type relation subjects = .ok () ↔ subjects.Resolves items := by
  rw [checkSubjectType]
  split
  · rename_i missing
    constructor
    · intro impossible
      cases impossible
    · intro resolves
      rcases resolves.defined with ⟨target, defined, _⟩
      rw [(reflects.definition _ target).mpr defined] at missing
      cases missing
  · rename_i target found
    have defined := (reflects.definition _ target).mp found
    rw [then_eq_ok_iff, checkSubjectRelation_eq_ok_iff, forM_eq_ok_iff]
    simp only [checkTrait_eq_ok_iff reflects]
    constructor
    · rintro ⟨hasMember, traits⟩
      exact ⟨⟨target, defined, hasMember⟩, traits⟩
    · rintro ⟨⟨other, otherDefined, hasMember⟩, traits⟩
      rw [definition?_unique reflects defined otherDefined]
      exact ⟨hasMember, traits⟩

/-! ## Permissions -/

theorem mem_walkTargets_iff (reflects : declarations.Reflects items) {types : List SubjectType}
    {target : Definition} :
    target ∈ declarations.walkTargets types ↔
      ∃ subjects ∈ types, subjects.subject ≠ .everyone ∧
        Defines items subjects.type.text target := by
  rw [walkTargets, List.mem_filterMap]
  simp only [List.mem_filter, bne_iff_ne, reflects.definition, and_assoc]

/-- Whether a walk arrives can be seen at its targets, if all types that it passes are defined. -/
theorem walkArrives_iff (reflects : declarations.Reflects items) {types : List SubjectType}
    (defined : ∀ subjects ∈ types, ∃ target, Defines items subjects.type.text target)
    {target : String} :
    ((declarations.walkTargets types).isEmpty ||
      (declarations.walkTargets types).any fun type => (type.member? target).isSome) = true ↔
      WalkArrives items types target := by
  rw [Bool.or_eq_true, List.isEmpty_iff, List.any_eq_true, List.eq_nil_iff_forall_not_mem,
    WalkArrives]
  simp only [mem_walkTargets_iff reflects, Definition.isSome_member?_iff]
  constructor
  · rintro (nowhere | ⟨definition, ⟨subjects, member, others, defines⟩, hasMember⟩)
    · refine .inl fun subjects member => Classical.byContradiction fun others => ?_
      rcases defined subjects member with ⟨definition, defines⟩
      exact nowhere definition ⟨subjects, member, others, defines⟩
    · exact .inr ⟨subjects, member, others, definition, defines, hasMember⟩
  · rintro (everyone | ⟨subjects, member, others, definition, defines, hasMember⟩)
    · refine .inl fun definition impossible => ?_
      rcases impossible with ⟨subjects, member, others, _⟩
      exact others (everyone subjects member)
    · exact .inr ⟨definition, ⟨subjects, member, others, defines⟩, hasMember⟩

def Settled (items : List Item) (definition : Definition) : Prop :=
  ∀ name types, .relation name types ∈ definition.members → ∀ subjects ∈ types,
    ∃ target, Defines items subjects.type.text target

section Expressions

variable {definition : Definition}

theorem checkWalk_eq_ok_iff (reflects : declarations.Reflects items)
    (distinct : (definition.members.map (·.name.text)).Nodup)
    (settled : Settled items definition) {permission : String} {arrow : Arrow}
    {name target : Name} :
    declarations.checkWalk definition permission arrow name target = .ok () ↔
      ∃ relation types, .relation relation types ∈ definition.members ∧
        relation.text = name.text ∧ WalkArrives items types target.text := by
  have found_iff {member : Member} : definition.member? name.text = some member ↔
      member ∈ definition.members ∧ member.name.text = name.text :=
    find?_eq_some_iff_of_nodup distinct
  have of_relation {relation : Name} {types : List SubjectType}
      (member : .relation relation types ∈ definition.members)
      (same : relation.text = name.text) :
      definition.member? name.text = some (.relation relation types) :=
    found_iff.mpr ⟨member, same⟩
  -- Names are distinct, so the member that is found is the relation, if there is one.
  rw [checkWalk]
  split
  · rename_i missing
    constructor
    · intro impossible
      cases impossible
    · rintro ⟨relation, types, member, same, _⟩
      rw [of_relation member same] at missing
      cases missing
  · rename_i other expression found
    constructor
    · intro impossible
      cases impossible
    · rintro ⟨relation, types, member, same, _⟩
      rw [of_relation member same] at found
      cases found
  · rename_i relation types found
    rcases found_iff.mp found with ⟨member, same⟩
    rw [accept_eq_ok_iff, walkArrives_iff reflects (settled relation types member)]
    constructor
    · intro arrives
      exact ⟨relation, types, member, same, arrives⟩
    · rintro ⟨other, otherTypes, otherMember, otherSame, arrives⟩
      rw [of_relation otherMember otherSame] at found
      cases found
      exact arrives

mutual
theorem checkExpression_eq_ok_iff (reflects : declarations.Reflects items)
    (distinct : (definition.members.map (·.name.text)).Nodup)
    (settled : Settled items definition) (permission : String) (expression : Expression) :
    declarations.checkExpression definition permission expression = .ok () ↔
      expression.Resolves items definition := by
  cases expression with
  | nothing =>
      rw [checkExpression]
      exact iff_of_true rfl .nothing
  | member name =>
      rw [checkExpression, accept_eq_ok_iff, Definition.isSome_member?_iff]
      constructor
      · exact .member
      · rintro (_ | found)
        exact found
  | walk arrow name target =>
      rw [checkExpression, checkWalk_eq_ok_iff reflects distinct settled]
      constructor
      · rintro ⟨relation, types, found, same, arrives⟩
        exact .walk found same arrives
      · rintro (_ | _ | ⟨found, same, arrives⟩)
        exact ⟨_, _, found, same, arrives⟩
  | union operands =>
      rw [checkExpression,
        checkOperands_eq_ok_iff reflects distinct settled permission operands]
      constructor
      · exact .union
      · rintro (_ | _ | _ | resolve)
        exact resolve
  | intersection operands =>
      rw [checkExpression,
        checkOperands_eq_ok_iff reflects distinct settled permission operands]
      constructor
      · exact .intersection
      · rintro (_ | _ | _ | _ | resolve)
        exact resolve
  | exclusion base removed =>
      rw [checkExpression, then_eq_ok_iff,
        checkExpression_eq_ok_iff reflects distinct settled permission base,
        checkExpression_eq_ok_iff reflects distinct settled permission removed]
      constructor
      · rintro ⟨baseResolves, removedResolves⟩
        exact .exclusion baseResolves removedResolves
      · rintro (_ | _ | _ | _ | _ | ⟨baseResolves, removedResolves⟩)
        exact ⟨baseResolves, removedResolves⟩

theorem checkOperands_eq_ok_iff (reflects : declarations.Reflects items)
    (distinct : (definition.members.map (·.name.text)).Nodup)
    (settled : Settled items definition) (permission : String) (operands : List Expression) :
    declarations.checkOperands definition permission operands = .ok () ↔
      ∀ operand ∈ operands, operand.Resolves items definition := by
  cases operands with
  | nil => simp [checkOperands]
  | cons operand operands =>
      rw [checkOperands, then_eq_ok_iff, List.forall_mem_cons,
        checkExpression_eq_ok_iff reflects distinct settled permission operand,
        checkOperands_eq_ok_iff reflects distinct settled permission operands]
end

end Expressions

/-! ## Members -/

theorem object_of_resolveMember {definition : Definition} {member : Member}
    {object : ObjectMember}
    (equal : declarations.resolveMember definition member = .ok object) :
    object = member.object := by
  cases member with
  | relation name types =>
      rcases then_eq_ok_iff.mp equal with ⟨_, result⟩
      exact (pure_eq_ok_iff.mp result).symm
  | permission name expression =>
      rcases then_eq_ok_iff.mp equal with ⟨_, result⟩
      exact (pure_eq_ok_iff.mp result).symm

theorem resolveRelation_eq_ok_iff (reflects : declarations.Reflects items)
    {definition : Definition} {name : Name} {types : List SubjectType} :
    declarations.resolveMember definition (.relation name types) =
        .ok (Member.relation name types).object ↔
      ∀ subjects ∈ types, subjects.Resolves items := by
  rw [resolveMember, then_eq_ok_iff, pure_eq_ok_iff, forM_eq_ok_iff]
  simp only [checkSubjectType_eq_ok_iff reflects]
  exact and_iff_left rfl

/-- Permissions are only understood once the types of the relations beside them are defined, and
these are checked together with them. -/
theorem resolveMembers_eq_ok_iff (reflects : declarations.Reflects items)
    {definition : Definition} (distinct : (definition.members.map (·.name.text)).Nodup) :
    (∀ member ∈ definition.members,
        declarations.resolveMember definition member = .ok member.object) ↔
      ∀ member ∈ definition.members, member.Resolves items definition := by
  have permission_iff (settled : Settled items definition) {name : Name}
      {expression : Expression} :
      declarations.resolveMember definition (.permission name expression) =
          .ok (Member.permission name expression).object ↔
        expression.Resolves items definition := by
    rw [resolveMember, then_eq_ok_iff, pure_eq_ok_iff,
      checkExpression_eq_ok_iff reflects distinct settled]
    exact and_iff_left rfl
  constructor
  · intro resolved
    have settled : Settled items definition := by
      intro name types found subjects member
      have resolves := (resolveRelation_eq_ok_iff reflects).mp (resolved _ found)
      rcases (resolves subjects member).defined with ⟨target, defined, _⟩
      exact ⟨target, defined⟩
    intro member found
    have equal := resolved member found
    cases member with
    | relation name types => exact (resolveRelation_eq_ok_iff reflects).mp equal
    | permission name expression => exact (permission_iff settled).mp equal
  · intro resolves
    have settled : Settled items definition := by
      intro name types found subjects member
      rcases (resolves _ found subjects member).defined with ⟨target, defined, _⟩
      exact ⟨target, defined⟩
    intro member found
    have memberResolves := resolves member found
    cases member with
    | relation name types => exact (resolveRelation_eq_ok_iff reflects).mpr memberResolves
    | permission name expression => exact (permission_iff settled).mpr memberResolves

theorem resolveDefinition_eq_ok_iff {definition : Definition} {object : ObjectType} :
    declarations.resolveDefinition definition = .ok object ↔
      (∀ member ∈ definition.members,
        declarations.resolveMember definition member = .ok member.object) ∧
        object = definition.object := by
  have each : ∀ member ∈ definition.members, ∀ result,
      declarations.resolveMember definition member = .ok result ↔
        declarations.resolveMember definition member = .ok member.object ∧
          result = member.object := by
    intro member _ result
    constructor
    · intro equal
      obtain rfl := object_of_resolveMember equal
      exact ⟨equal, rfl⟩
    · rintro ⟨equal, rfl⟩
      exact equal
  rw [resolveDefinition, bind_eq_ok_iff]
  simp only [mapM_eq_ok_iff each, pure_eq_ok_iff]
  constructor
  · rintro ⟨_, ⟨resolved, rfl⟩, rfl⟩
    exact ⟨resolved, rfl⟩
  · rintro ⟨resolved, rfl⟩
    exact ⟨_, ⟨resolved, rfl⟩, rfl⟩

/-! ## The object model -/

theorem resolve_eq_ok_iff {written : List Item} {model : ObjectModel} :
    declarations.resolve written = .ok model ↔
      (∀ definition : Definition, .definition definition ∈ written →
        declarations.resolveDefinition definition = .ok definition.object) ∧
        model = objectModel written := by
  induction written generalizing model with
  | nil =>
      rw [resolve]
      simp [objectModel, ObjectModel.empty, eq_comm]
  | cons item written induction =>
      cases item with
      | feature name =>
          rw [resolve, induction]
          simp [objectModel]
      | caveat declared =>
          rw [resolve, bind_eq_ok_iff]
          simp only [induction, pure_eq_ok_iff]
          constructor
          · rintro ⟨_, ⟨resolved, rfl⟩, rfl⟩
            exact ⟨by simpa using resolved, by simp [objectModel]⟩
          · rintro ⟨resolved, rfl⟩
            exact ⟨_, ⟨by simpa using resolved, rfl⟩, by simp [objectModel]⟩
      | definition declared =>
          rw [resolve, bind_eq_ok_iff]
          simp only [bind_eq_ok_iff, induction, pure_eq_ok_iff, List.mem_cons,
            Item.definition.injEq, forall_eq_or_imp]
          constructor
          · rintro ⟨object, equal, _, ⟨resolved, rfl⟩, rfl⟩
            obtain rfl := (resolveDefinition_eq_ok_iff.mp equal).2
            exact ⟨⟨equal, resolved⟩, by simp [objectModel]⟩
          · rintro ⟨⟨equal, resolved⟩, rfl⟩
            exact ⟨_, equal, _, ⟨resolved, rfl⟩, by simp [objectModel]⟩

end Declarations

theorem resolveDefinition_gathered_iff {items : List Item}
    (each : ∀ item ∈ items, item.WellFormed) (distinct : (declaredNames items).Nodup)
    {definition : Definition} (member : .definition definition ∈ items) :
    (Declarations.gathered items).resolveDefinition definition = .ok definition.object ↔
      ∀ member ∈ definition.members, member.Resolves items definition := by
  have wellFormed : definition.WellFormed := each _ member
  rw [Declarations.resolveDefinition_eq_ok_iff, Declarations.resolveMembers_eq_ok_iff
    (Declarations.reflects_gathered distinct) wellFormed.distinct]
  exact and_iff_left rfl

theorem of_check {items : List Item} {model : ObjectModel} (equal : check items = .ok model) :
    WellFormed items ∧ model = objectModel items := by
  rcases bind_eq_ok_iff.mp equal with ⟨declarations, gathers, resolves⟩
  rcases Declarations.ofItems_eq_ok_iff.mp gathers with ⟨each, distinct, rfl⟩
  rcases Declarations.resolve_eq_ok_iff.mp resolves with ⟨resolved, rfl⟩
  refine ⟨⟨each, distinct, fun definition member => ?_⟩, rfl⟩
  exact (resolveDefinition_gathered_iff each distinct member).mp (resolved definition member)

theorem check_of_wellFormed {items : List Item} (wellFormed : WellFormed items) :
    check items = .ok (objectModel items) := by
  rcases wellFormed with ⟨each, distinct, references⟩
  have gathers := Declarations.ofItems_eq_ok_iff.mpr ⟨each, distinct, rfl⟩
  refine bind_eq_ok_iff.mpr ⟨_, gathers, Declarations.resolve_eq_ok_iff.mpr ⟨?_, rfl⟩⟩
  intro definition member
  exact (resolveDefinition_gathered_iff each distinct member).mpr (references definition member)

/-- A schema is accepted if and only if it is well-formed, in whatever order its items stand, and
then its object model is the projection of its items. -/
theorem check_eq_ok_iff {items : List Item} {model : ObjectModel} :
    check items = .ok model ↔ WellFormed items ∧ model = objectModel items := by
  constructor
  · exact of_check
  · rintro ⟨wellFormed, rfl⟩
    exact check_of_wellFormed wellFormed

end PermissionTypes.Schema
