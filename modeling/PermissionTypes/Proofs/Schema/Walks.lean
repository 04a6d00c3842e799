import PermissionTypes.Proofs.Schema.Compiled
import PermissionTypes.Proofs.Schema.Uses

/-! Walks lead somewhere. Whatever stands on the left of an arrow in a schema that compiles is a
relation beside it, and what stands on the right is a member of some type that the relation leads
to. This fails for relations that are only ever given to everyone: the rule asks for a type with the
member there as well, but where no type is left to look at, any name gets through. -/

namespace PermissionTypes.Schema

/-- A walk stands in some permission of a definition, however deep. -/
def Definition.Walks (definition : Definition) (arrow : Arrow) (relation target : Name) : Prop :=
  ∃ name expression, .permission name expression ∈ definition.members ∧
    .walk arrow relation target ∈ expression.uses

theorem WellFormed.walkArrives {items : List Item} (wellFormed : WellFormed items)
    {definition : Definition} (member : .definition definition ∈ items) {arrow : Arrow}
    {relation target : Name} (walks : definition.Walks arrow relation target) :
    ∃ declared types, definition.member? relation.text = some (.relation declared types) ∧
      WalkArrives items types target.text := by
  rcases walks with ⟨name, expression, permission, use⟩
  have resolves : expression.Resolves items definition :=
    wellFormed.references definition member _ permission
  rcases Expression.resolves_iff.mp resolves _ use with ⟨declared, types, found, same, arrives⟩
  have isWellFormed : definition.WellFormed := wellFormed.each _ member
  refine ⟨declared, types, ?_, arrives⟩
  exact (find?_eq_some_iff_of_nodup isWellFormed.distinct).mpr ⟨found, same⟩

/-- In a schema that compiles, each walk starts from a relation of its own definition, and some
type that this relation leads to has the target, or else the relation is given to everyone alone and
the target has escaped the rule. -/
theorem walk_of_compile {schema : String} {model : ObjectModel}
    (compiled : compile schema = .ok model) :
    ∃ items, parse schema = .ok items ∧
      ∀ definition : Definition, .definition definition ∈ items →
        ∀ arrow relation target, definition.Walks arrow relation target →
          ∃ declared types,
            definition.member? relation.text = some (.relation declared types) ∧
              ((∀ subjects ∈ types, subjects.subject = .everyone) ∨
                ArrivesAtObject items types target.text) := by
  rcases wellFormed_of_compile compiled with ⟨items, read, wellFormed, _⟩
  refine ⟨items, read, ?_⟩
  intro definition member arrow relation target walks
  exact wellFormed.walkArrives member walks

/-! ### A walk along a relation that is given to everyone alone -/

def everyoneText : String :=
  "definition user\x7b\x7ddefinition doc\x7brelation parent:doc relation viewer:user:* " ++
    "permission view=nil-(parent.all(view)&viewer->anything)\x7d"

def everyoneDocument : Definition where
  name := ⟨"doc", 28⟩
  members := [
    .relation ⟨"parent", 41⟩ [{ type := ⟨"doc", 48⟩, subject := .object, traits := [] }],
    .relation ⟨"viewer", 61⟩ [{ type := ⟨"user", 68⟩, subject := .everyone, traits := [] }],
    .permission ⟨"view", 86⟩
      (.exclusion .nothing (.intersection [
        .walk .all ⟨"parent", 96⟩ ⟨"view", 107⟩,
        .walk .each ⟨"viewer", 113⟩ ⟨"anything", 121⟩]))]

def everyoneItems : List Item :=
  [.definition { name := ⟨"user", 11⟩, members := [] }, .definition everyoneDocument]

set_option maxRecDepth 2000 in
theorem parse_everyoneText : parse everyoneText = .ok everyoneItems := by
  with_unfolding_all rfl

theorem compile_everyoneText : compile everyoneText = .ok (objectModel everyoneItems) :=
  compile_eq_ok_iff.mpr ⟨_, parse_everyoneText, by with_unfolding_all rfl⟩

theorem walks_to_anything : everyoneDocument.Walks .each ⟨"viewer", 113⟩ ⟨"anything", 121⟩ :=
  ⟨_, _, .tail _ (.tail _ (.head _)), .tail _ (.head _)⟩

theorem not_forall_walk_arrivesAtObject :
    ¬ ∀ schema model items, compile schema = .ok model → parse schema = .ok items →
      ∀ definition : Definition, .definition definition ∈ items →
        ∀ arrow relation target, definition.Walks arrow relation target →
          ∃ declared types,
            definition.member? relation.text = some (.relation declared types) ∧
              ArrivesAtObject items types target.text := by
  intro arrives
  rcases arrives _ _ _ compile_everyoneText parse_everyoneText everyoneDocument
    (.tail _ (.head _)) _ _ _ walks_to_anything with
    ⟨declared, types, found, subjects, member, others, _⟩
  cases found
  rw [List.mem_singleton] at member
  exact others (congrArg SubjectType.subject member)

theorem walk_of_compile_sample :
    compile everyoneText = .ok (objectModel everyoneItems) ∧
      ∃ items, parse everyoneText = .ok items ∧
        ∀ definition : Definition, .definition definition ∈ items →
          ∀ arrow relation target, definition.Walks arrow relation target →
            ∃ declared types,
              definition.member? relation.text = some (.relation declared types) ∧
                ((∀ subjects ∈ types, subjects.subject = .everyone) ∨
                  ArrivesAtObject items types target.text) :=
  ⟨compile_everyoneText, walk_of_compile compile_everyoneText⟩

end PermissionTypes.Schema
