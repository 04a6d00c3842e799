import Mathlib.Data.List.Basic
import PermissionTypes.Proofs.Schema.Extension
import PermissionTypes.Proofs.Schema.Grammar

/-! Moving a schema. Behind other text its names have larger places. Nothing else about it changes:
it has the same shape, it is as well-formed as before, and its object model is the same. -/

namespace PermissionTypes.Schema

/-! ## Trees -/

def Name.moved (distance : Nat) (name : Name) : Name where
  text := name.text
  offset := name.offset + distance

namespace Expression

mutual
def moved (distance : Nat) : Expression → Expression
  | .nothing => .nothing
  | .member name => .member (name.moved distance)
  | .walk arrow relation target =>
      .walk arrow (relation.moved distance) (target.moved distance)
  | .union operands => .union (movedAll distance operands)
  | .intersection operands => .intersection (movedAll distance operands)
  | .exclusion base removed => .exclusion (base.moved distance) (removed.moved distance)

def movedAll (distance : Nat) : List Expression → List Expression
  | [] => []
  | operand :: operands => operand.moved distance :: movedAll distance operands
end

theorem movedAll_eq (distance : Nat) (operands : List Expression) :
    movedAll distance operands = operands.map (moved distance) := by
  induction operands with
  | nil => rfl
  | cons operand operands induction => rw [movedAll, induction, List.map_cons]

end Expression

def Subject.moved (distance : Nat) : Subject → Subject
  | .object => .object
  | .everyone => .everyone
  | .relation name => .relation (name.moved distance)

def SubjectType.moved (distance : Nat) (subjects : SubjectType) : SubjectType where
  type := subjects.type.moved distance
  subject := subjects.subject.moved distance
  traits := subjects.traits.map (Name.moved distance)

def Member.moved (distance : Nat) : Member → Member
  | .relation name types =>
      .relation (name.moved distance) (types.map (SubjectType.moved distance))
  | .permission name expression =>
      .permission (name.moved distance) (expression.moved distance)

def Definition.moved (distance : Nat) (definition : Definition) : Definition where
  name := definition.name.moved distance
  members := definition.members.map (Member.moved distance)

def Caveat.moved (distance : Nat) (caveat : Caveat) : Caveat where
  name := caveat.name.moved distance
  parameters := caveat.parameters
  expression := caveat.expression

def Item.moved (distance : Nat) : Item → Item
  | .feature name => .feature (name.moved distance)
  | .caveat declared => .caveat (declared.moved distance)
  | .definition declared => .definition (declared.moved distance)

/-! ## Shapes -/

section Shapes

variable (distance : Nat)

theorem Expression.WellShaped.moved {expression : Expression} (shaped : expression.WellShaped) :
    (expression.moved distance).WellShaped := by
  induction shaped with
  | nothing => exact .nothing
  | member canBeRead => exact .member canBeRead
  | walk canBeRead identifier => exact .walk canBeRead identifier
  | union several _ induction =>
      rw [Expression.moved, movedAll_eq]
      exact .union (by rwa [List.length_map]) (List.forall_mem_map.mpr induction)
  | intersection several _ induction =>
      rw [Expression.moved, movedAll_eq]
      exact .intersection (by rwa [List.length_map]) (List.forall_mem_map.mpr induction)
  | exclusion _ _ baseInduction removedInduction =>
      exact .exclusion baseInduction removedInduction

theorem SubjectType.WellShaped.moved {subjects : SubjectType} (shaped : subjects.WellShaped) :
    (subjects.moved distance).WellShaped where
  type := shaped.type
  subject := by
    rcases subjects with ⟨type, subject, traits⟩
    cases subject <;> exact shaped.subject
  traits := List.forall_mem_map.mpr shaped.traits

theorem Member.WellShaped.moved {member : Member} (shaped : member.WellShaped) :
    (member.moved distance).WellShaped := by
  cases member with
  | relation name types =>
      rcases shaped with ⟨isIdentifier, notNil, typesShaped⟩
      refine ⟨isIdentifier, by simpa using notNil, List.forall_mem_map.mpr ?_⟩
      exact fun type member => (typesShaped type member).moved distance
  | permission name expression => exact ⟨shaped.1, shaped.2.moved distance⟩

theorem Item.WellShaped.moved {item : Item} (shaped : item.WellShaped) :
    (item.moved distance).WellShaped := by
  cases item with
  | feature name => exact shaped
  | caveat declared => exact ⟨shaped.name, shaped.parameters, shaped.expression⟩
  | definition declared =>
      refine ⟨shaped.name, List.forall_mem_map.mpr ?_⟩
      exact fun member found => (shaped.members member found).moved distance

end Shapes

/-! ## Well-formedness -/

section WellFormedness

variable (distance : Nat) {items : List Item} {definition : Definition}

def Use.moved : Use → Use
  | .member name => .member (name.moved distance)
  | .walk arrow relation target => .walk arrow (relation.moved distance) (target.moved distance)

theorem Expression.usesOfAll_movedAll {operands : List Expression}
    (each : ∀ operand ∈ operands,
      (operand.moved distance).uses = operand.uses.map (Use.moved distance)) :
    usesOfAll (movedAll distance operands) = (usesOfAll operands).map (Use.moved distance) := by
  rw [movedAll_eq, usesOfAll_eq, usesOfAll_eq, List.flatMap_map, List.map_flatMap]
  exact List.flatMap_congr each

theorem Expression.uses_moved (expression : Expression) :
    (expression.moved distance).uses = expression.uses.map (Use.moved distance) := by
  induction expression using induction_on_operands with
  | nothing => rfl
  | member name => rfl
  | walk arrow relation target => rfl
  | union operands induction =>
      rw [moved, uses, uses, usesOfAll_movedAll distance induction]
  | intersection operands induction =>
      rw [moved, uses, uses, usesOfAll_movedAll distance induction]
  | exclusion base removed baseInduction removedInduction =>
      rw [moved, uses, uses, baseInduction, removedInduction, List.map_append]

theorem SubjectType.Resolves.moved {subjects : SubjectType} (resolves : subjects.Resolves items) :
    (subjects.moved distance).Resolves items where
  defined := by
    rcases resolves.defined with ⟨target, defined, hasMember⟩
    refine ⟨target, defined, ?_⟩
    intro name same
    rcases subjects with ⟨type, subject, traits⟩
    cases subject with
    | object => cases same
    | everyone => cases same
    | relation own =>
        cases same
        exact hasMember own rfl
  traits := List.forall_mem_map.mpr resolves.traits

theorem Member.Resolves.moved {member : Member} (resolves : member.Resolves items definition) :
    (member.moved distance).Resolves items definition := by
  cases member with
  | relation name types =>
      refine List.forall_mem_map.mpr ?_
      exact fun subjects found => (resolves subjects found).moved distance
  | permission name expression =>
      apply Expression.resolves_iff.mpr
      rw [Expression.uses_moved, List.forall_mem_map]
      intro use found
      have useResolves := Expression.resolves_iff.mp resolves use found
      cases use <;> exact useResolves

theorem Definition.offers_moved (definition : Definition) :
    definition.Offers (definition.moved distance) where
  member name hasMember := by
    rcases hasMember with ⟨member, found, same⟩
    refine ⟨member.moved distance, List.mem_map_of_mem found, ?_⟩
    cases member <;> exact same
  relation relation types found := by
    refine ⟨relation.moved distance, types.map (SubjectType.moved distance),
      List.mem_map_of_mem found, rfl, ?_⟩
    intro objects
    rw [List.map_map]
    have same : SubjectType.objects? ∘ SubjectType.moved distance = SubjectType.objects? := by
      funext subjects
      rcases subjects with ⟨type, subject, traits⟩
      cases subject <;> rfl
    rw [same]

theorem offers_moved (items : List Item) : Offers items (items.map (Item.moved distance)) where
  definition name definition defined :=
    ⟨definition.moved distance, ⟨List.mem_map_of_mem defined.1, defined.2⟩,
      (definition.offers_moved distance).member⟩
  caveat name declared := by
    rcases declared with ⟨caveat, member, same⟩
    exact ⟨caveat.moved distance, List.mem_map_of_mem member, same⟩
  feature declared := by
    rcases declared with ⟨feature, member⟩
    exact ⟨feature.moved distance, List.mem_map_of_mem member⟩

theorem Definition.WellFormed.moved (wellFormed : definition.WellFormed) :
    (definition.moved distance).WellFormed where
  name := wellFormed.name
  names := by
    refine List.forall_mem_map.mpr ?_
    intro member found
    have isName := wellFormed.names member found
    cases member <;> exact isName
  distinct := by
    have same : (definition.moved distance).members.map (·.name.text) =
        definition.members.map (·.name.text) := by
      rw [Definition.moved, List.map_map]
      apply List.map_congr_left
      intro member _
      cases member <;> rfl
    rw [same]
    exact wellFormed.distinct

theorem Item.WellFormed.moved {item : Item} (wellFormed : item.WellFormed) :
    (item.moved distance).WellFormed := by
  cases item with
  | feature name => exact wellFormed
  | caveat declared =>
      exact ⟨wellFormed.name, wellFormed.distinct, wellFormed.known, wellFormed.expression⟩
  | definition declared => exact Definition.WellFormed.moved distance wellFormed

theorem declaredNames_moved (items : List Item) :
    declaredNames (items.map (Item.moved distance)) = declaredNames items := by
  rw [declaredNames, declaredNames, List.filterMap_map]
  congr
  funext item
  cases item <;> rfl

theorem WellFormed.moved (wellFormed : WellFormed items) :
    WellFormed (items.map (Item.moved distance)) where
  each := by
    refine List.forall_mem_map.mpr ?_
    exact fun item member => (wellFormed.each item member).moved distance
  distinct := by
    rw [declaredNames_moved]
    exact wellFormed.distinct
  references definition found := by
    rcases List.mem_map.mp found with ⟨item, itemFound, equal⟩
    cases item <;> cases equal
    rename_i original
    refine List.forall_mem_map.mpr ?_
    intro member isMember
    have resolves := wellFormed.references original itemFound member isMember
    exact (resolves.mono (offers_moved distance items) (original.offers_moved distance)).moved
      distance

end WellFormedness

/-! ## Object models -/

theorem Definition.object_moved (distance : Nat) (definition : Definition) :
    (definition.moved distance).object = definition.object := by
  rw [object, object, moved, List.map_map]
  congr 1
  apply List.map_congr_left
  intro member _
  cases member <;> rfl

theorem objectModel_moved (distance : Nat) (items : List Item) :
    objectModel (items.map (Item.moved distance)) = objectModel items := by
  rw [objectModel, objectModel, List.filterMap_map, List.filterMap_map]
  congr 1
  · congr
    funext item
    cases item with
    | feature name => rfl
    | caveat declared => rfl
    | definition declared => exact congrArg some (declared.object_moved distance)
  · congr
    funext item
    cases item <;> rfl

end PermissionTypes.Schema
