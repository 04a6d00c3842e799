import PermissionTypes.Generation
import PermissionTypes.Proofs.PermissionMapReading
import PermissionTypes.Proofs.Schema.Compiled

/-! What the generated module depends on: the names of the definitions with the names of their
permissions, and nothing else of the schema. -/

namespace PermissionTypes

/-! ## Declared permissions -/

namespace Schema

def Member.permission? : Member → Option String
  | .relation _ _ => none
  | .permission name _ => some name.text

/-- The definitions in written order, each with its permissions in written order. -/
def declaredPermissions (items : List Item) : List (String × List String) :=
  items.filterMap fun
    | .definition definition =>
        some (definition.name.text, definition.members.filterMap Member.permission?)
    | .feature _ => none
    | .caveat _ => none

/-- The permissions that a text declares. One that cannot be read declares none. -/
def permissionsOf (schema : String) : List (String × List String) :=
  match parse schema with
  | .ok items => declaredPermissions items
  | .error _ => []

theorem permissions_object (definition : Definition) :
    definition.object.permissions = definition.members.filterMap Member.permission? := by
  rw [ObjectType.permissions, Definition.object, List.filterMap_map]
  congr
  funext member
  cases member <;> rfl

structure FollowsRule (declared : String × List String) : Prop where
  type : IsDeclaredPath declared.1.toList
  permissions : ∀ permission ∈ declared.2, IsDeclaredName permission.toList
  distinct : declared.2.Nodup

theorem Member.sublist_permissions (members : List Member) :
    (members.filterMap Member.permission?).Sublist (members.map (·.name.text)) := by
  induction members with
  | nil => exact .slnil
  | cons member members induction =>
      cases member with
      | relation name types => exact induction.cons _
      | permission name expression => exact induction.cons_cons _

theorem Definition.WellFormed.followsRule {definition : Definition}
    (wellFormed : definition.WellFormed) :
    FollowsRule (definition.name.text, definition.members.filterMap Member.permission?) where
  type := wellFormed.name
  permissions := by
    intro permission found
    rcases List.mem_map.mp ((Member.sublist_permissions _).mem found) with ⟨member, inside, rfl⟩
    exact wellFormed.names member inside
  distinct := wellFormed.distinct.sublist (Member.sublist_permissions _)

theorem followsRule_of_wellFormed {items : List Item} (wellFormed : WellFormed items) :
    ∀ declared ∈ declaredPermissions items, FollowsRule declared := by
  intro declared member
  rcases List.mem_filterMap.mp member with ⟨item, itemMember, equal⟩
  cases item with
  | feature name => cases equal
  | caveat caveat => cases equal
  | definition definition =>
      cases equal
      have isWellFormed : definition.WellFormed := wellFormed.each _ itemMember
      exact isWellFormed.followsRule

theorem IsDeclaredName.ne_nil {text : List Char} (isName : IsDeclaredName text) : text ≠ [] := by
  rcases isName with ⟨first, middle, last, rfl, _⟩
  simp

end Schema

open Schema

namespace PermissionEntry

def ofDeclared (declared : String × List String) : PermissionEntry where
  resourceType := declared.1
  permissions := declared.2

theorem ofDeclared_injective {first second : String × List String}
    (equal : ofDeclared first = ofDeclared second) : first = second := by
  cases first
  cases second
  cases equal
  rfl

end PermissionEntry

namespace PermissionMap

theorem entries_ofTypes_objectModel (items : List Item) :
    (ofTypes (objectModel items).types).entries =
      (declaredPermissions items).map .ofDeclared := by
  rw [ofTypes, objectModel, declaredPermissions, List.map_filterMap, List.map_filterMap]
  congr
  funext item
  cases item with
  | feature name => rfl
  | caveat declared => rfl
  | definition declared =>
      simp only [Option.map_some, PermissionEntry.ofType, PermissionEntry.ofDeclared,
        permissions_object]
      rfl

/-- No permission of a well-formed schema is the empty text, which stands for no permissions. -/
theorem named_of_wellFormed {items : List Item} (wellFormed : WellFormed items) :
    ∀ entry ∈ (ofTypes (objectModel items).types).entries, "" ∉ entry.permissions := by
  rw [entries_ofTypes_objectModel]
  intro entry entryMember empty
  rcases List.mem_map.mp entryMember with ⟨declared, declaredMember, rfl⟩
  have followsRule := followsRule_of_wellFormed wellFormed declared declaredMember
  exact (followsRule.permissions "" empty).ne_nil rfl

theorem describe_injective {first second : PermissionMap}
    (firstNamed : ∀ entry ∈ first.entries, "" ∉ entry.permissions)
    (secondNamed : ∀ entry ∈ second.entries, "" ∉ entry.permissions)
    (equal : first.describe = second.describe) : first = second := by
  have characters : first.characters = second.characters := String.ofList_inj.mp equal
  have firstRead := ofCharacters_characters firstNamed
  rw [characters, ofCharacters_characters secondNamed] at firstRead
  exact (Option.some.inj firstRead).symm

end PermissionMap

/-! ## The module -/

namespace ClientModule

theorem describe_of_text {first second : List ObjectType} (equal : text first = text second) :
    (PermissionMap.ofTypes first).describe = (PermissionMap.ofTypes second).describe := by
  simp only [text, ← String.toList_inj, String.toList_append, List.append_assoc,
    List.append_cancel_left_eq] at equal
  have same := List.append_cancel_right equal
  exact String.toList_inj.mp same

theorem text_eq_iff {first second : List Item} (firstWellFormed : WellFormed first)
    (secondWellFormed : WellFormed second) :
    text (objectModel first).types = text (objectModel second).types ↔
      declaredPermissions first = declaredPermissions second := by
  constructor
  · intro equal
    have sameMap := PermissionMap.describe_injective
      (PermissionMap.named_of_wellFormed firstWellFormed)
      (PermissionMap.named_of_wellFormed secondWellFormed) (describe_of_text equal)
    have sameEntries := congrArg PermissionMap.entries sameMap
    rw [PermissionMap.entries_ofTypes_objectModel, PermissionMap.entries_ofTypes_objectModel]
      at sameEntries
    exact (List.map_inj_right fun _ _ => PermissionEntry.ofDeclared_injective).mp sameEntries
  · intro equal
    have sameMap : PermissionMap.ofTypes (objectModel first).types =
        PermissionMap.ofTypes (objectModel second).types := by
      rw [PermissionMap.mk.injEq, PermissionMap.entries_ofTypes_objectModel,
        PermissionMap.entries_ofTypes_objectModel, equal]
    rw [text, text, sameMap]

end ClientModule

namespace Generation

theorem clientModule_of_compile {schema : String} {model : ObjectModel}
    (compiled : compile schema = .ok model) (file : String) :
    clientModule compile file (.ok schema.toUTF8) = .ok (ClientModule.text model.types) := by
  rw [clientModule, load_toUTF8]
  simp only [compiled]

/-- Modules generated from two accepted schemas have the same bytes if and only if the schemas
declare the same definitions with the same permissions, in the same order. -/
theorem clientModule_eq_iff {first second : String} {firstModel secondModel : ObjectModel}
    (firstCompiled : compile first = .ok firstModel)
    (secondCompiled : compile second = .ok secondModel) (file otherFile : String) :
    ∃ firstModule secondModule,
      clientModule compile file (.ok first.toUTF8) = .ok firstModule ∧
        clientModule compile otherFile (.ok second.toUTF8) = .ok secondModule ∧
        (firstModule.toUTF8 = secondModule.toUTF8 ↔
          permissionsOf first = permissionsOf second) := by
  refine ⟨_, _, clientModule_of_compile firstCompiled file,
    clientModule_of_compile secondCompiled otherFile, ?_⟩
  rcases compile_eq_ok_iff.mp firstCompiled with ⟨firstItems, firstRead, firstChecked⟩
  rcases compile_eq_ok_iff.mp secondCompiled with ⟨secondItems, secondRead, secondChecked⟩
  rcases of_check firstChecked with ⟨firstWellFormed, rfl⟩
  rcases of_check secondChecked with ⟨secondWellFormed, rfl⟩
  rw [permissionsOf, permissionsOf, firstRead, secondRead]
  exact String.toByteArray_inj.trans (ClientModule.text_eq_iff firstWellFormed secondWellFormed)

/-! ### Two schemas that differ in everything but their permissions, and one with more resources -/

def plainText : String :=
  "definition doc/item\x7bpermission view=nil\x7d"

def otherText : String :=
  "//x\ncaveat cav(a int)\x7ba\x7ddefinition doc/item\x7brelation own:doc/item " ++
    "permission view=own\x7d"

def largerText : String :=
  "definition doc/item\x7bpermission view=nil\x7ddefinition user\x7b\x7d"

theorem compile_plainText : compile plainText = .ok {
    types := [{ name := "doc/item", members := [{ name := "view", kind := .permission }] }]
    caveats := [] } := by
  with_unfolding_all rfl

theorem compile_otherText : compile otherText = .ok {
    types := [{
      name := "doc/item"
      members := [{ name := "own", kind := .relation }, { name := "view", kind := .permission }] }]
    caveats := ["cav"] } := by
  with_unfolding_all rfl

theorem compile_largerText : compile largerText = .ok {
    types := [{ name := "doc/item", members := [{ name := "view", kind := .permission }] },
      { name := "user", members := [] }]
    caveats := [] } := by
  with_unfolding_all rfl

theorem permissionsOf_plainText : permissionsOf plainText = [("doc/item", ["view"])] := by
  with_unfolding_all rfl

theorem permissionsOf_otherText : permissionsOf otherText = [("doc/item", ["view"])] := by
  with_unfolding_all rfl

theorem permissionsOf_largerText :
    permissionsOf largerText = [("doc/item", ["view"]), ("user", [])] := by
  with_unfolding_all rfl

theorem clientModule_eq_iff_sample :
    ∃ plainModule otherModule largerModule,
      clientModule compile "plain" (.ok plainText.toUTF8) = .ok plainModule ∧
        clientModule compile "other" (.ok otherText.toUTF8) = .ok otherModule ∧
        clientModule compile "larger" (.ok largerText.toUTF8) = .ok largerModule ∧
        permissionsOf plainText = permissionsOf otherText ∧
        plainModule.toUTF8 = otherModule.toUTF8 ∧
        permissionsOf plainText ≠ permissionsOf largerText ∧
        plainModule.toUTF8 ≠ largerModule.toUTF8 := by
  have same : permissionsOf plainText = permissionsOf otherText :=
    permissionsOf_plainText.trans permissionsOf_otherText.symm
  have different : permissionsOf plainText ≠ permissionsOf largerText := by
    rw [permissionsOf_plainText, permissionsOf_largerText]
    decide
  rcases clientModule_eq_iff compile_plainText compile_otherText "plain" "other" with
    ⟨plain, other, plainGenerated, otherGenerated, otherIff⟩
  rcases clientModule_eq_iff compile_plainText compile_largerText "plain" "larger" with
    ⟨again, larger, againGenerated, largerGenerated, largerIff⟩
  have equal : again = plain := Except.ok.inj (againGenerated.symm.trans plainGenerated)
  subst equal
  exact ⟨again, other, larger, plainGenerated, otherGenerated, largerGenerated, same,
    otherIff.mpr same, different, fun equal => different (largerIff.mp equal)⟩

end Generation
end PermissionTypes
