import PermissionTypes.Proofs.Schema.Beginnings
import PermissionTypes.Proofs.Schema.TreeNames

/-! The spans of the names in a text that has been read. Each name is there, whole, and the names
follow one another as the tree has them. -/

namespace PermissionTypes.Schema

open Text (byteLength)
open Grammar (IsPath isPath_of_isIdentifier)

/-! ## Names are paths -/

theorem Grammar.IsPath.last {text : List Char} (isPath : IsPath text) :
    ∃ last ∈ text.getLast?, isWordCharacter last = true := by
  rcases isPath with ⟨identifiers, notNil, all, rfl⟩
  induction identifiers with
  | nil => exact absurd rfl notNil
  | cons identifier identifiers induction =>
      rcases List.forall_mem_cons.mp all with ⟨isIdentifier, allBehind⟩
      cases identifiers with
      | nil =>
          have last := List.getLast?_eq_some_getLast isIdentifier.ne_nil
          exact ⟨_, last, isIdentifier.isWordCharacter _ (List.getLast_mem _)⟩
      | cons next identifiers =>
          rcases induction (List.cons_ne_nil next identifiers) allBehind with ⟨last, isLast, word⟩
          rw [Option.mem_def] at isLast
          refine ⟨last, ?_, word⟩
          rw [Text.join, Option.mem_def, List.getLast?_append, isLast, Option.some_or]

theorem Name.CanBeRead.isPath {name : Name} (canBeRead : name.CanBeRead) :
    IsPath name.text.toList :=
  isPath_of_isIdentifier canBeRead.1

theorem Expression.WellShaped.isPath {expression : Expression}
    (shaped : expression.WellShaped) : ∀ name ∈ expression.names, IsPath name.text.toList := by
  induction shaped with
  | nothing => exact List.forall_mem_nil _
  | member canBeRead => exact List.forall_mem_singleton.mpr canBeRead.isPath
  | walk canBeRead identifier =>
      refine List.forall_mem_cons.mpr ⟨canBeRead.isPath, List.forall_mem_singleton.mpr ?_⟩
      exact isPath_of_isIdentifier identifier
  | union several shaped induction =>
      rw [names_union]
      exact List.forall_mem_flatMap.mpr induction
  | intersection several shaped induction =>
      rw [names_intersection]
      exact List.forall_mem_flatMap.mpr induction
  | exclusion baseShaped removedShaped base removed =>
      rw [names, uses, List.flatMap_append]
      exact List.forall_mem_append.mpr ⟨base, removed⟩

theorem Subject.WellShaped.isPath {subject : Subject} (shaped : subject.WellShaped) :
    ∀ name ∈ subject.names, IsPath name.text.toList := by
  cases subject with
  | object => exact List.forall_mem_nil _
  | everyone => exact List.forall_mem_nil _
  | relation name => exact List.forall_mem_singleton.mpr (isPath_of_isIdentifier shaped)

theorem SubjectType.WellShaped.isPath {subjects : SubjectType} (shaped : subjects.WellShaped) :
    ∀ name ∈ subjects.names, IsPath name.text.toList := by
  have behind := List.forall_mem_append.mpr ⟨shaped.subject.isPath, shaped.traits⟩
  exact List.forall_mem_cons.mpr ⟨shaped.type, behind⟩

theorem Member.WellShaped.isPath {member : Member} (shaped : member.WellShaped) :
    ∀ name ∈ member.names, IsPath name.text.toList := by
  cases member with
  | relation name types =>
      rcases shaped with ⟨identifier, _, typesShaped⟩
      refine List.forall_mem_cons.mpr
        ⟨isPath_of_isIdentifier identifier, List.forall_mem_flatMap.mpr ?_⟩
      intro type inTypes
      exact (typesShaped type inTypes).isPath
  | permission name expression =>
      rcases shaped with ⟨identifier, expressionShaped⟩
      exact List.forall_mem_cons.mpr
        ⟨isPath_of_isIdentifier identifier, expressionShaped.isPath⟩

theorem Item.WellShaped.isPath {item : Item} (shaped : item.WellShaped) :
    ∀ name ∈ item.names, IsPath name.text.toList := by
  cases item with
  | feature name => exact List.forall_mem_singleton.mpr (isPath_of_isIdentifier shaped)
  | caveat declared => exact List.forall_mem_singleton.mpr (Caveat.WellShaped.name shaped)
  | definition declared =>
      refine List.forall_mem_cons.mpr
        ⟨Definition.WellShaped.name shaped, List.forall_mem_flatMap.mpr ?_⟩
      intro member inMembers
      exact (Definition.WellShaped.members shaped member inMembers).isPath

theorem isPath_of_parse {schema : String} {read : List Item} (equal : parse schema = .ok read) :
    ∀ name ∈ namesOf read, IsPath name.text.toList := by
  rcases parse_eq_ok_iff.mp equal with ⟨_, done⟩
  refine List.forall_mem_flatMap.mpr ?_
  intro item member
  exact ((of_done_items done).2 item member).isPath

/-! ## Spans -/

namespace Name

def stop (name : Name) : Nat :=
  name.offset + byteLength name.text.toList

/-- A text has the name at its place, and the characters next to the name belong to no word. -/
def StandsIn (text : List Char) (name : Name) : Prop :=
  ∃ before rest, text = before ++ (name.text.toList ++ rest) ∧ name.offset = byteLength before ∧
    (∀ last ∈ before.getLast?, isWordCharacter last = false) ∧
    ∀ first ∈ rest.head?, isWordCharacter first = false

theorem offset_lt_stop {name : Name} (isPath : IsPath name.text.toList) :
    name.offset < name.stop := by
  rcases isPath.head with ⟨first, more, equal, _⟩
  have positive := first.utf8Size_pos
  rw [stop, equal, Text.byteLength_cons]
  omega

theorem standsIn_of_mentioning {names : List Name} {text : List Char}
    (mentions : Spelling.mentioning names 0 text) {name : Name} (member : name ∈ names)
    (isPath : IsPath name.text.toList) : name.StandsIn text := by
  rcases Spelling.exists_of_mentioning mentions member with
    ⟨before, rest, equal, place, apartBefore, apartBehind⟩
  rw [Nat.zero_add] at place
  refine ⟨before, rest, equal, place, fun last isLast => ?_, fun next isNext => ?_⟩
  · rcases isPath.head with ⟨first, more, nameEqual, letter⟩
    rw [nameEqual] at apartBefore
    refine Bool.eq_false_iff.mpr fun word => ?_
    have noWord := apartBefore last isLast first rfl word
    rw [isWordCharacter_of_isLetter letter] at noWord
    cases noWord
  · rcases isPath.last with ⟨last, isLast, word⟩
    exact apartBehind last isLast next isNext word

end Name

/-- The names that are mentioned later start where the earlier ones have ended. -/
theorem Spelling.pairwise_of_mentioning {names : List Name} {offset : Nat} {text : List Char}
    (mentions : mentioning names offset text) :
    names.Pairwise fun earlier later => earlier.stop ≤ later.offset := by
  induction names generalizing offset text with
  | nil => exact .nil
  | cons first names induction =>
      rcases mentions with ⟨front, _, _, _, _, _, back, _, _, ⟨place, rfl⟩, mentions⟩
      refine .cons (fun later member => ?_) (induction mentions)
      rcases exists_of_mentioning mentions member with ⟨before, _, _, laterPlace, _⟩
      rw [Name.stop, place, laterPlace]
      omega

/-- Every name in the tree of a text has a span of its own: the text reads the name there, and no
word goes on across its ends. The spans lie one behind the other, in the order of the tree. -/
theorem names_have_spans {schema : String} {read : List Item} (equal : parse schema = .ok read) :
    (∀ name ∈ namesOf read, name.StandsIn schema.toList ∧ name.offset < name.stop) ∧
      (namesOf read).Pairwise fun earlier later => earlier.stop ≤ later.offset := by
  have mentions := mentioning_of_parse equal
  refine ⟨fun name member => ?_, Spelling.pairwise_of_mentioning mentions⟩
  have isPath := isPath_of_parse equal name member
  exact ⟨Name.standsIn_of_mentioning mentions member isPath, Name.offset_lt_stop isPath⟩

/-! ### A schema in which characters take several bytes -/

def accentedText : String :=
  "/*é*/use expiration\ncaveat k(n int)\x7bn=='ü'\x7ddefinition a/b\x7b//ö\n" ++
    "relation r:a/b#r with k|a/b:* permission p=r-(r->p)-r.any(p)\x7d"

def accentedItems : List Item :=
  [.feature ⟨"expiration", 10⟩,
    .caveat {
      name := ⟨"k", 28⟩
      parameters := [{ name := "n", type := "int" }]
      expression := "n=='ü'" },
    .definition {
      name := ⟨"a/b", 56⟩
      members := [
        .relation ⟨"r", 74⟩ [
          { type := ⟨"a/b", 76⟩, subject := .relation ⟨"r", 80⟩, traits := [⟨"k", 87⟩] },
          { type := ⟨"a/b", 89⟩, subject := .everyone, traits := [] }],
        .permission ⟨"p", 106⟩
          (.exclusion
            (.exclusion (.member ⟨"r", 108⟩) (.walk .each ⟨"r", 111⟩ ⟨"p", 114⟩))
            (.walk .any ⟨"r", 117⟩ ⟨"p", 123⟩))] }]

set_option maxRecDepth 2000 in
theorem parse_accentedText : parse accentedText = .ok accentedItems := by
  with_unfolding_all rfl

theorem names_have_spans_accented :
    parse accentedText = .ok accentedItems ∧
      (∀ name ∈ namesOf accentedItems,
        name.StandsIn accentedText.toList ∧ name.offset < name.stop) ∧
      (namesOf accentedItems).Pairwise fun earlier later => earlier.stop ≤ later.offset :=
  ⟨parse_accentedText, names_have_spans parse_accentedText⟩

end PermissionTypes.Schema
