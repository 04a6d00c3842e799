import PermissionTypes.Proofs.Schema.Uses

/-! Resolving is monotone. Where names lead to at least as much as they did before, everything that
resolved before still does. -/

namespace PermissionTypes.Schema

/-! ## More to refer to -/

/-- Whatever the items declare, the others declare under the same name, with at least the members
that it had. -/
structure Offers (items others : List Item) : Prop where
  definition : ∀ name definition, Defines items name definition → ∃ other,
    Defines others name other ∧ ∀ member, definition.HasMember member → other.HasMember member
  caveat : ∀ name, (∃ caveat : Caveat, .caveat caveat ∈ items ∧ caveat.name.text = name) →
    ∃ caveat : Caveat, .caveat caveat ∈ others ∧ caveat.name.text = name
  feature : (∃ feature, .feature feature ∈ items) → ∃ feature, .feature feature ∈ others

theorem Offers.of_subset {items others : List Item} (subset : items ⊆ others) :
    Offers items others where
  definition name definition defined :=
    ⟨definition, ⟨subset defined.1, defined.2⟩, fun _ hasMember => hasMember⟩
  caveat name declared := by
    rcases declared with ⟨caveat, member, same⟩
    exact ⟨caveat, subset member, same⟩
  feature declared := by
    rcases declared with ⟨feature, member⟩
    exact ⟨feature, subset member⟩

def SubjectType.objects? (subjects : SubjectType) : Option String :=
  if subjects.subject = .everyone then none else some subjects.type.text

structure Definition.Offers (definition other : Definition) : Prop where
  member : ∀ name, definition.HasMember name → other.HasMember name
  relation : ∀ relation types, .relation relation types ∈ definition.members →
    ∃ otherRelation otherTypes, .relation otherRelation otherTypes ∈ other.members ∧
      otherRelation.text = relation.text ∧
      ∀ objects, objects ∈ otherTypes.map SubjectType.objects? ↔
        objects ∈ types.map SubjectType.objects?

theorem Definition.Offers.refl (definition : Definition) : definition.Offers definition where
  member _ hasMember := hasMember
  relation relation types found := ⟨relation, types, found, rfl, fun _ => Iff.rfl⟩

/-! ## Monotony -/

section Monotony

variable {items others : List Item} {definition other : Definition}

theorem TraitResolves.mono (offers : Offers items others) {trait : Name}
    (resolves : TraitResolves items trait) : TraitResolves others trait := by
  rcases resolves with ⟨expires, declared⟩ | ⟨other, declared⟩
  · exact .inl ⟨expires, offers.feature declared⟩
  · exact .inr ⟨other, offers.caveat trait.text declared⟩

theorem SubjectType.Resolves.mono (offers : Offers items others) {subjects : SubjectType}
    (resolves : subjects.Resolves items) : subjects.Resolves others where
  defined := by
    rcases resolves.defined with ⟨target, defined, hasMember⟩
    rcases offers.definition _ target defined with ⟨other, otherDefined, keeps⟩
    exact ⟨other, otherDefined, fun name same => keeps _ (hasMember name same)⟩
  traits trait member := (resolves.traits trait member).mono offers

/-- Walks only depend on the types whose objects are meant. -/
theorem walkArrives_iff_objects {types : List SubjectType} {target : String} :
    WalkArrives items types target ↔
      (∀ objects ∈ types.map SubjectType.objects?, objects = none) ∨
        ∃ name, some name ∈ types.map SubjectType.objects? ∧
          ∃ definition, Defines items name definition ∧ definition.HasMember target := by
  rw [WalkArrives, List.forall_mem_map]
  apply or_congr
  · simp [SubjectType.objects?]
  · simp only [List.mem_map, SubjectType.objects?]
    constructor
    · intro arrives
      rcases arrives with ⟨subjects, member, others, definition, found⟩
      exact ⟨subjects.type.text, ⟨subjects, member, if_neg others⟩, definition, found⟩
    · intro arrives
      rcases arrives with ⟨name, ⟨subjects, member, isObject⟩, definition, found⟩
      split at isObject
      · cases isObject
      · rename_i others
        cases isObject
        exact ⟨subjects, member, others, definition, found⟩

theorem WalkArrives.mono (offers : Offers items others) {types otherTypes : List SubjectType}
    (same : ∀ objects, objects ∈ otherTypes.map SubjectType.objects? ↔
      objects ∈ types.map SubjectType.objects?) {target : String}
    (arrives : WalkArrives items types target) : WalkArrives others otherTypes target := by
  rw [walkArrives_iff_objects] at arrives ⊢
  simp only [same]
  rcases arrives with everyone | ⟨name, member, definition, defined, hasMember⟩
  · exact .inl everyone
  · rcases offers.definition name definition defined with ⟨other, otherDefined, keeps⟩
    exact .inr ⟨name, member, other, otherDefined, keeps target hasMember⟩

theorem Use.Resolves.mono (offers : Offers items others)
    (definitionOffers : definition.Offers other) {use : Use}
    (resolves : use.Resolves items definition) : use.Resolves others other := by
  cases use with
  | member name => exact definitionOffers.member name.text resolves
  | walk arrow name target =>
      rcases resolves with ⟨relation, types, found, sameName, arrives⟩
      rcases definitionOffers.relation relation types found with
        ⟨otherRelation, otherTypes, otherFound, sameRelation, sameObjects⟩
      exact ⟨otherRelation, otherTypes, otherFound, sameRelation.trans sameName,
        arrives.mono offers sameObjects⟩

theorem Member.Resolves.mono (offers : Offers items others)
    (definitionOffers : definition.Offers other) {member : Member}
    (resolves : member.Resolves items definition) : member.Resolves others other := by
  cases member with
  | relation name types =>
      intro subjects found
      exact (resolves subjects found).mono offers
  | permission name expression =>
      apply Expression.resolves_iff.mpr
      intro use found
      exact (Expression.resolves_iff.mp resolves use found).mono offers definitionOffers

end Monotony

/-! ## Two schemas beside each other -/

theorem declaredNames_append (items more : List Item) :
    declaredNames (items ++ more) = declaredNames items ++ declaredNames more :=
  List.filterMap_append

/-- Two well-formed schemas that share no names are one well-formed schema. -/
theorem WellFormed.append {items more : List Item} (first : WellFormed items)
    (second : WellFormed more)
    (apart : ∀ name ∈ declaredNames items, name ∉ declaredNames more) :
    WellFormed (items ++ more) where
  each := List.forall_mem_append.mpr ⟨first.each, second.each⟩
  distinct := by
    rw [declaredNames_append, List.nodup_append]
    refine ⟨first.distinct, second.distinct, ?_⟩
    intro name member other otherMember same
    exact apart name member (same ▸ otherMember)
  references definition found member isMember := by
    rcases List.mem_append.mp found with found | found
    · exact (first.references definition found member isMember).mono
        (.of_subset (List.subset_append_left items more)) (.refl definition)
    · exact (second.references definition found member isMember).mono
        (.of_subset (List.subset_append_right items more)) (.refl definition)

end PermissionTypes.Schema
