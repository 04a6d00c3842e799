import Mathlib.Data.List.Perm.Basic
import PermissionTypes.Proofs.Schema.Extension
import PermissionTypes.Proofs.Schema.ReferenceChecks

/-! The order of declarations has no meaning. The items of a schema, the members of a definition and
the types of a relation can be written in any order: the schema stays as good as it was, and its
object model is the same up to the same change of order. -/

namespace PermissionTypes

open List (Forall₂)

/-! ## Changes of order -/

/-- Each value is replaced by a related one, and then the order changes. -/
def ReorderedBy (related : α → β → Prop) (first : List α) (second : List β) : Prop :=
  ∃ middle, Forall₂ related first middle ∧ middle.Perm second

namespace ReorderedBy

variable {related : α → β → Prop} {first : List α} {second : List β}

theorem exists_left (reordered : ReorderedBy related first second) {other : β}
    (member : other ∈ second) : ∃ value ∈ first, related value other := by
  rcases reordered with ⟨middle, forall₂, perm⟩
  have inMiddle := perm.mem_iff.mpr member
  clear perm member
  induction forall₂ with
  | nil => cases inMiddle
  | cons holds more induction =>
      rcases List.mem_cons.mp inMiddle with rfl | inMiddle
      · exact ⟨_, List.mem_cons_self .., holds⟩
      · rcases induction inMiddle with ⟨value, member, isRelated⟩
        exact ⟨value, List.mem_cons_of_mem _ member, isRelated⟩

theorem symm {related : α → α → Prop} (symmetric : ∀ {value other}, related value other →
    related other value) {first second : List α} (reordered : ReorderedBy related first second) :
    ReorderedBy related second first := by
  rcases reordered with ⟨middle, forall₂, perm⟩
  have back : Forall₂ related middle first := (forall₂.imp fun _ _ => symmetric).flip
  exact List.perm_comp_forall₂ perm.symm back

theorem filterMap {result : γ → δ → Prop} {project : α → Option γ} {projectOther : β → Option δ}
    (projects : ∀ {value other}, related value other →
      Option.Rel result (project value) (projectOther other))
    (reordered : ReorderedBy related first second) :
    ReorderedBy result (first.filterMap project) (second.filterMap projectOther) := by
  rcases reordered with ⟨middle, forall₂, perm⟩
  have projected : Forall₂ result (first.filterMap project) (middle.filterMap projectOther) :=
    List.rel_filterMap (fun _ _ isRelated => projects isRelated) forall₂
  exact ⟨_, projected, perm.filterMap projectOther⟩

theorem map {result : γ → δ → Prop} {project : α → γ} {projectOther : β → δ}
    (projects : ∀ {value other}, related value other → result (project value) (projectOther other))
    (reordered : ReorderedBy related first second) :
    ReorderedBy result (first.map project) (second.map projectOther) := by
  rcases reordered with ⟨middle, forall₂, perm⟩
  have projected : Forall₂ result (first.map project) (middle.map projectOther) :=
    List.rel_map (fun _ _ isRelated => projects isRelated) forall₂
  exact ⟨_, projected, perm.map projectOther⟩

theorem perm {first second : List α} (reordered : ReorderedBy Eq first second) :
    first.Perm second := by
  rcases reordered with ⟨middle, forall₂, perm⟩
  rw [List.forall₂_eq_eq_eq] at forall₂
  exact forall₂ ▸ perm

end ReorderedBy

structure ObjectType.Reordered (object other : ObjectType) : Prop where
  name : object.name = other.name
  members : object.members.Perm other.members

structure ObjectModel.Reordered (model other : ObjectModel) : Prop where
  types : ReorderedBy ObjectType.Reordered model.types other.types
  caveats : model.caveats.Perm other.caveats

namespace Schema

/-! ## Schemas in another order -/

/-- The types of a relation in another order. -/
inductive Member.Reordered : Member → Member → Prop
  | relation {name : Name} {types others : List SubjectType} (perm : types.Perm others) :
      Reordered (.relation name types) (.relation name others)
  | permission {name : Name} {expression : Expression} :
      Reordered (.permission name expression) (.permission name expression)

structure Definition.Reordered (definition other : Definition) : Prop where
  name : definition.name = other.name
  members : ReorderedBy Member.Reordered definition.members other.members

inductive Item.Reordered : Item → Item → Prop
  | feature {name : Name} : Reordered (.feature name) (.feature name)
  | caveat {caveat : Caveat} : Reordered (.caveat caveat) (.caveat caveat)
  | definition {definition other : Definition} (reordered : definition.Reordered other) :
      Reordered (.definition definition) (.definition other)

def Reordered (items others : List Item) : Prop :=
  ReorderedBy Item.Reordered items others

theorem Member.Reordered.symm {member other : Member} (reordered : member.Reordered other) :
    other.Reordered member := by
  cases reordered with
  | relation perm => exact .relation perm.symm
  | permission => exact .permission

theorem Definition.Reordered.symm {definition other : Definition}
    (reordered : definition.Reordered other) : other.Reordered definition where
  name := reordered.name.symm
  members := reordered.members.symm .symm

theorem Item.Reordered.symm {item other : Item} (reordered : item.Reordered other) :
    other.Reordered item := by
  cases reordered with
  | feature => exact .feature
  | caveat => exact .caveat
  | definition reordered => exact .definition reordered.symm

theorem Reordered.symm {items others : List Item} (reordered : Reordered items others) :
    Reordered others items :=
  ReorderedBy.symm .symm reordered

/-! ## Well-formedness -/

section WellFormedness

variable {items others : List Item} {definition other : Definition}

theorem Member.Reordered.name {member other : Member} (reordered : member.Reordered other) :
    member.name = other.name := by
  cases reordered <;> rfl

theorem Definition.Reordered.hasMember (reordered : definition.Reordered other) {name : String}
    (hasMember : other.HasMember name) : definition.HasMember name := by
  rcases hasMember with ⟨member, found, same⟩
  rcases reordered.members.exists_left found with ⟨original, originalFound, isReordered⟩
  exact ⟨original, originalFound, isReordered.name ▸ same⟩

theorem Definition.Reordered.offers (reordered : definition.Reordered other) :
    definition.Offers other where
  member name hasMember := reordered.symm.hasMember hasMember
  relation relation types found := by
    rcases reordered.symm.members.exists_left found with ⟨member, otherFound, isReordered⟩
    cases isReordered with
    | relation perm =>
        exact ⟨relation, _, otherFound, rfl, fun _ => (perm.map _).mem_iff⟩

theorem Reordered.defines (reordered : Reordered items others) {name : String}
    (defines : Defines items name definition) :
    ∃ other, Defines others name other ∧ definition.Reordered other := by
  rcases reordered.symm.exists_left defines.1 with ⟨item, member, isReordered⟩
  cases isReordered with
  | definition isReordered =>
      exact ⟨_, ⟨member, isReordered.name ▸ defines.2⟩, isReordered.symm⟩

theorem Reordered.offers (reordered : Reordered items others) : Offers items others where
  definition name definition defines := by
    rcases reordered.defines defines with ⟨other, otherDefines, isReordered⟩
    exact ⟨other, otherDefines, isReordered.offers.member⟩
  caveat name declared := by
    rcases declared with ⟨caveat, member, same⟩
    rcases reordered.symm.exists_left member with ⟨item, otherMember, isReordered⟩
    cases isReordered
    exact ⟨caveat, otherMember, same⟩
  feature declared := by
    rcases declared with ⟨feature, member⟩
    rcases reordered.symm.exists_left member with ⟨item, otherMember, isReordered⟩
    cases isReordered
    exact ⟨feature, otherMember⟩

theorem Definition.WellFormed.of_reordered (wellFormed : definition.WellFormed)
    (reordered : definition.Reordered other) : other.WellFormed where
  name := reordered.name ▸ wellFormed.name
  names member found := by
    rcases reordered.members.exists_left found with ⟨original, originalFound, isReordered⟩
    exact isReordered.name ▸ wellFormed.names original originalFound
  distinct := by
    have sameNames : ReorderedBy Eq (definition.members.map (·.name.text))
        (other.members.map (·.name.text)) :=
      reordered.members.map fun isReordered => congrArg Name.text isReordered.name
    exact sameNames.perm.nodup_iff.mp wellFormed.distinct

theorem Item.WellFormed.of_reordered {item other : Item} (wellFormed : item.WellFormed)
    (reordered : item.Reordered other) : other.WellFormed := by
  cases reordered with
  | feature => exact wellFormed
  | caveat => exact wellFormed
  | definition reordered => exact Definition.WellFormed.of_reordered wellFormed reordered

theorem Member.Resolves.of_reordered {member otherMember : Member}
    (resolves : member.Resolves items definition) (reordered : member.Reordered otherMember) :
    otherMember.Resolves items definition := by
  cases reordered with
  | relation perm => exact fun subjects found => resolves subjects (perm.mem_iff.mpr found)
  | permission => exact resolves

theorem Reordered.declaredNames (reordered : Reordered items others) :
    (declaredNames items).Perm (declaredNames others) := by
  apply ReorderedBy.perm
  apply ReorderedBy.filterMap _ reordered
  intro item other isReordered
  cases isReordered with
  | feature => exact .none
  | caveat => exact .some rfl
  | definition isReordered => exact .some (congrArg Name.text isReordered.name)

theorem WellFormed.of_reordered (wellFormed : WellFormed items)
    (reordered : Reordered items others) : WellFormed others where
  each item found := by
    rcases reordered.exists_left found with ⟨original, originalFound, isReordered⟩
    exact (wellFormed.each original originalFound).of_reordered isReordered
  distinct := reordered.declaredNames.nodup_iff.mp wellFormed.distinct
  references other found member isMember := by
    rcases reordered.exists_left found with ⟨item, originalFound, isReordered⟩
    cases isReordered with
    | definition isReordered =>
        rcases isReordered.members.exists_left isMember with ⟨original, isOriginal, sameMember⟩
        have resolves := wellFormed.references _ originalFound original isOriginal
        exact (resolves.mono reordered.offers isReordered.offers).of_reordered sameMember

end WellFormedness

/-! ## Object models -/

theorem Member.Reordered.object {member other : Member} (reordered : member.Reordered other) :
    member.object = other.object := by
  cases reordered <;> rfl

theorem Definition.Reordered.object {definition other : Definition}
    (reordered : definition.Reordered other) :
    ObjectType.Reordered definition.object other.object where
  name := congrArg Name.text reordered.name
  members := (reordered.members.map fun isReordered => isReordered.object).perm

theorem Reordered.objectModel {items others : List Item} (reordered : Reordered items others) :
    ObjectModel.Reordered (objectModel items) (objectModel others) where
  types := by
    apply ReorderedBy.filterMap _ reordered
    intro item other isReordered
    cases isReordered with
    | feature => exact .none
    | caveat => exact .none
    | definition isReordered => exact .some isReordered.object
  caveats := by
    apply ReorderedBy.perm
    apply ReorderedBy.filterMap _ reordered
    intro item other isReordered
    cases isReordered with
    | feature => exact .none
    | caveat => exact .some rfl
    | definition isReordered => exact .none

/-- A schema is accepted if and only if it is accepted in another order. The object model is the
projection of the items in the order in which they are written, so it has the same types, members
and caveats in the new order. -/
theorem check_reordered {items others : List Item} (reordered : Reordered items others) :
    ((∃ model, check others = .ok model) ↔ ∃ model, check items = .ok model) ∧
      ∀ model, check items = .ok model →
        model = objectModel items ∧ check others = .ok (objectModel others) ∧
          model.Reordered (objectModel others) := by
  have accepted {items others : List Item} (reordered : Reordered items others)
      {model : ObjectModel} (checked : check items = .ok model) :
      check others = .ok (objectModel others) :=
    check_of_wellFormed ((of_check checked).1.of_reordered reordered)
  refine ⟨⟨?_, ?_⟩, ?_⟩
  · intro checked
    rcases checked with ⟨model, checked⟩
    exact ⟨_, accepted reordered.symm checked⟩
  · intro checked
    rcases checked with ⟨model, checked⟩
    exact ⟨_, accepted reordered checked⟩
  · intro model checked
    obtain rfl := (of_check checked).2
    exact ⟨rfl, accepted reordered checked, reordered.objectModel⟩

/-! ### A schema in two orders -/

def ownRelation (types : List SubjectType) : Member :=
  .relation ⟨"own", 56⟩ types

def ownedByUser : SubjectType where
  type := ⟨"user", 60⟩
  subject := .object
  traits := []

def ownedByEveryone : SubjectType where
  type := ⟨"user", 65⟩
  subject := .everyone
  traits := [⟨"expiration", 77⟩]

def getPermission : Member :=
  .permission ⟨"get", 99⟩ (.member ⟨"own", 103⟩)

def userItem : Item :=
  .definition { name := ⟨"user", 26⟩, members := [] }

def documentItem (members : List Member) : Item :=
  .definition { name := ⟨"doc", 43⟩, members }

def forwardItems : List Item :=
  [.feature ⟨"expiration", 4⟩, userItem,
    documentItem [ownRelation [ownedByUser, ownedByEveryone], getPermission]]

def backwardItems : List Item :=
  [documentItem [getPermission, ownRelation [ownedByEveryone, ownedByUser]], userItem,
    .feature ⟨"expiration", 4⟩]

theorem reordered_forwardItems : Reordered forwardItems backwardItems := by
  have members : ReorderedBy Member.Reordered
      [ownRelation [ownedByUser, ownedByEveryone], getPermission]
      [getPermission, ownRelation [ownedByEveryone, ownedByUser]] :=
    ⟨_, .cons (.relation (.swap _ _ _)) (.cons .permission .nil), .swap _ _ _⟩
  have user : ReorderedBy Member.Reordered [] [] := ⟨[], .nil, .nil⟩
  refine ⟨backwardItems.reverse, ?_, List.reverse_perm _⟩
  exact .cons .feature
    (.cons (.definition ⟨rfl, user⟩) (.cons (.definition ⟨rfl, members⟩) .nil))

theorem check_reordered_sample :
    Reordered forwardItems backwardItems ∧
      check forwardItems = .ok (objectModel forwardItems) ∧
      check backwardItems = .ok (objectModel backwardItems) := by
  have accepted : check forwardItems = .ok (objectModel forwardItems) := by
    with_unfolding_all rfl
  have reordered := check_reordered reordered_forwardItems
  exact ⟨reordered_forwardItems, accepted, (reordered.2 _ accepted).2.1⟩

end Schema
end PermissionTypes
