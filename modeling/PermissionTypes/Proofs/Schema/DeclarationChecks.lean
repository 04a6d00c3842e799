import PermissionTypes.Proofs.Schema.Verdicts
import PermissionTypes.Proofs.Schema.WellFormedness

/-! Gathering the declarations succeeds exactly for items that are well-formed one by one and share
no names. What is gathered is then what the items declare. -/

namespace PermissionTypes.Schema

open NameRule (isLower isLowerOrDigit)

/-! ## Names -/

theorem isLowerOrDigit_of_isLower {character : Char} (lower : isLower character = true) :
    isLowerOrDigit character = true := by
  simp [isLowerOrDigit, lower]

theorem isDeclaredName_iff {text : List Char} :
    NameRule.allows text = true ↔ IsDeclaredName text := by
  simp only [NameRule.allows, Bool.and_eq_true, decide_eq_true_eq, List.all_eq_true,
    Bool.or_eq_true, beq_iff_eq]
  constructor
  · rintro ⟨⟨⟨⟨atLeast, atMost⟩, starts⟩, ends⟩, all⟩
    cases text with
    | nil => simp at atLeast
    | cons first more =>
        rcases List.eq_nil_or_concat more with rfl | ⟨middle, last, rfl⟩
        · simp at atLeast
        · simp only [List.concat_eq_append, List.length_cons, List.length_append,
            List.length_nil] at atLeast atMost
          refine ⟨first, middle, last, by simp, by simpa using starts, by omega, by omega, ?_, ?_⟩
          · intro character member
            exact all character (by simp [member])
          · rw [List.concat_eq_append, ← List.cons_append, List.getLast?_concat] at ends
            simpa using ends
  · rintro ⟨first, middle, last, rfl, starts, atLeast, atMost, all, ends⟩
    refine ⟨⟨⟨⟨?_, ?_⟩, ?_⟩, ?_⟩, ?_⟩
    · simp only [List.length_cons, List.length_append, List.length_nil]
      omega
    · simp only [List.length_cons, List.length_append, List.length_nil]
      omega
    · simpa using starts
    · rw [← List.cons_append, List.getLast?_concat]
      simpa using ends
    · intro character member
      rcases List.mem_cons.mp member with rfl | member
      · exact .inl (isLowerOrDigit_of_isLower starts)
      · rcases List.mem_append.mp member with member | member
        · exact all character member
        · obtain rfl := List.mem_singleton.mp member
          exact .inl ends

theorem IsDeclaredName.not_mem_slash {text : List Char} (isName : IsDeclaredName text) :
    '/' ∉ text := by
  have allowed := isDeclaredName_iff.mpr isName
  simp only [NameRule.allows, Bool.and_eq_true, List.all_eq_true] at allowed
  intro member
  have wrong := allowed.2 '/' member
  revert wrong
  decide

theorem isDeclaredPath_iff {text : List Char} :
    NameRule.allowsPath text = true ↔ IsDeclaredPath text := by
  rw [NameRule.allowsPath, List.all_eq_true]
  constructor
  · intro all
    refine ⟨Text.split '/' text, Text.split_ne_nil '/' text, ?_, (Text.join_split '/' text).symm⟩
    exact fun name member => isDeclaredName_iff.mp (all name member)
  · rintro ⟨names, notNil, all, rfl⟩
    rw [Text.split_join notNil fun name member => (all name member).not_mem_slash]
    exact fun name member => isDeclaredName_iff.mpr (all name member)

/-! ## Caveats -/

theorem not_mem_of_mem_knownTypes :
    ∀ type ∈ Parameter.knownTypes, '<' ∉ type.toList := by
  decide

theorem Parameter.isKnown_iff {parameter : Parameter} :
    parameter.isKnown = true ↔ parameter.HasKnownType := by
  rw [Parameter.isKnown, List.contains_iff_mem]
  constructor
  · intro member
    refine ⟨_, member, parameter.type.toList.dropWhile (· != '<'), ?_, ?_⟩
    · rw [String.toList_ofList, Parameter.outermostType, List.takeWhile_append_dropWhile]
    · have stops := List.head?_dropWhile_not (· != '<') parameter.type.toList
      cases rest : parameter.type.toList.dropWhile (· != '<') with
      | nil => exact .inl rfl
      | cons next more =>
          rw [rest] at stops
          exact .inr (by simpa using stops)
  · rintro ⟨type, member, arguments, equal, ends⟩
    have outermost : parameter.outermostType = type.toList := by
      have all : ∀ character ∈ type.toList, (character != '<') = true := by
        intro character found
        rw [bne_iff_ne]
        rintro rfl
        exact not_mem_of_mem_knownTypes type member found
      rw [Parameter.outermostType, equal, List.takeWhile_append_of_pos all]
      rcases ends with rfl | opening
      · simp
      · cases arguments with
        | nil => cases opening
        | cons next more =>
            cases opening
            simp
    rwa [outermost, String.ofList_toList]

theorem Parameter.checkAll_eq_ok_iff {caveat : Name} {before : List String}
    {parameters : List Parameter} :
    Parameter.checkAll caveat before parameters = .ok () ↔
      (∀ parameter ∈ parameters, parameter.HasKnownType) ∧
        (parameters.map (·.name)).Nodup ∧ ∀ parameter ∈ parameters, parameter.name ∉ before := by
  induction parameters generalizing before with
  | nil => simp [Parameter.checkAll]
  | cons parameter parameters induction =>
      rw [Parameter.checkAll, refuse_eq_ok_iff, refuse_eq_ok_iff, induction, distinct_cons_iff,
        List.forall_mem_cons, List.contains_iff_mem, Bool.not_eq_true, Bool.not_eq_false',
        Parameter.isKnown_iff]
      constructor
      · rintro ⟨fresh, known, othersKnown, distinct, others⟩
        exact ⟨⟨known, othersKnown⟩, fresh, distinct, others⟩
      · rintro ⟨⟨known, othersKnown⟩, fresh, distinct, others⟩
        exact ⟨fresh, known, othersKnown, distinct, others⟩

theorem not_isBlank_iff {text : List Char} :
    ¬ Text.isBlank text = true ↔
      ∃ character ∈ text, Text.isBlankCharacter character = false := by
  simp [Text.isBlank]

theorem Caveat.check_accepts_iff {caveat : Caveat} :
    caveat.check = .ok () ↔ (∀ parameter ∈ caveat.parameters, parameter.HasKnownType) ∧
      (caveat.parameters.map (·.name)).Nodup ∧
      ∃ character ∈ caveat.expression.toList, Text.isBlankCharacter character = false := by
  rw [Caveat.check, then_eq_ok_iff, Parameter.checkAll_eq_ok_iff]
  have blank : (if Text.isBlank caveat.expression.toList = true then
      throw (.blankExpression caveat.name) else pure () : Except Violation Unit) = .ok () ↔ _ :=
    refuse_eq_ok_iff
  rw [blank, not_isBlank_iff, pure_eq_ok_iff, and_assoc]
  simp

/-! ## Members -/

theorem Member.checkNames_eq_ok_iff {type : String} {before : List String}
    {members : List Member} :
    Member.checkNames type before members = .ok () ↔
      (∀ member ∈ members, IsDeclaredName member.name.text.toList) ∧
        (members.map (·.name.text)).Nodup ∧ ∀ member ∈ members, member.name.text ∉ before := by
  induction members generalizing before with
  | nil => simp [Member.checkNames]
  | cons member members induction =>
      rw [Member.checkNames, refuse_eq_ok_iff, refuse_eq_ok_iff, induction, distinct_cons_iff,
        List.forall_mem_cons, List.contains_iff_mem, Bool.not_eq_true, Bool.not_eq_false',
        isDeclaredName_iff]
      constructor
      · rintro ⟨isName, fresh, names, distinct, others⟩
        exact ⟨⟨isName, names⟩, fresh, distinct, others⟩
      · rintro ⟨⟨isName, names⟩, fresh, distinct, others⟩
        exact ⟨isName, fresh, names, distinct, others⟩

/-! ## Items -/

namespace Declarations

def names (declarations : Declarations) : List String :=
  declarations.definitions.map (·.name.text) ++ declarations.caveats

theorem isTaken_iff {declarations : Declarations} {name : String} :
    declarations.isTaken name = true ↔ name ∈ declarations.names := by
  rw [isTaken, Bool.or_eq_true, definition?, find?_isSome_iff, List.contains_iff_mem, names,
    List.mem_append, List.mem_map]

/-- The declarations with one item more, whether it can stand or not. -/
def extend (declarations : Declarations) : Item → Declarations
  | .feature _ => { declarations with expiration := true }
  | .caveat caveat => { declarations with caveats := caveat.name.text :: declarations.caveats }
  | .definition definition =>
      { declarations with definitions := definition :: declarations.definitions }

theorem names_extend (declarations : Declarations) (item : Item) :
    (declarations.extend item).names.Perm (item.declared?.toList ++ declarations.names) := by
  cases item with
  | feature name => exact .refl _
  | caveat declared => exact List.perm_middle
  | definition declared => exact .refl _

theorem declare_eq_ok_iff {declarations extended : Declarations} {item : Item} :
    declarations.declare item = .ok extended ↔
      item.WellFormed ∧ (∀ name ∈ item.declared?, name ∉ declarations.names) ∧
        extended = declarations.extend item := by
  cases item with
  | feature name =>
      rw [declare]
      split
      · rename_i known
        simp only [knownFeature, beq_iff_eq] at known
        simp [Item.WellFormed, Item.declared?, extend, known, eq_comm]
      · rename_i unknown
        simp only [knownFeature, beq_iff_eq] at unknown
        simp [Item.WellFormed, unknown]
  | caveat declared =>
      rw [declare, throw_bind_eq_ok_iff, throw_bind_eq_ok_iff, then_eq_ok_iff, pure_eq_ok_iff,
        Caveat.check_accepts_iff, isTaken_iff, Bool.not_eq_true, Bool.not_eq_false',
        isDeclaredPath_iff]
      simp only [Item.declared?, Option.mem_def, Option.some.injEq, forall_eq']
      constructor
      · rintro ⟨path, fresh, ⟨known, distinct, expression⟩, rfl⟩
        exact ⟨⟨path, distinct, known, expression⟩, fresh, rfl⟩
      · rintro ⟨⟨path, distinct, known, expression⟩, fresh, rfl⟩
        exact ⟨path, fresh, ⟨known, distinct, expression⟩, rfl⟩
  | definition declared =>
      rw [declare, throw_bind_eq_ok_iff, throw_bind_eq_ok_iff, then_eq_ok_iff, pure_eq_ok_iff,
        Member.checkNames_eq_ok_iff, isTaken_iff, Bool.not_eq_true, Bool.not_eq_false',
        isDeclaredPath_iff]
      simp only [Item.declared?, Option.mem_def, Option.some.injEq, forall_eq']
      constructor
      · rintro ⟨path, fresh, ⟨names, distinct, _⟩, rfl⟩
        exact ⟨⟨path, names, distinct⟩, fresh, rfl⟩
      · rintro ⟨⟨path, names, distinct⟩, fresh, rfl⟩
        exact ⟨path, fresh, ⟨names, distinct, fun _ _ => List.not_mem_nil⟩, rfl⟩

theorem declaredNames_cons (item : Item) (items : List Item) :
    declaredNames (item :: items) = item.declared?.toList ++ declaredNames items := by
  rw [declaredNames, List.filterMap_cons]
  cases item.declared? <;> rfl

/-- The names of an item can be counted before those of the items behind it or afterwards. -/
theorem names_cons (declarations : Declarations) (item : Item) (items : List Item) :
    (declaredNames (item :: items) ++ declarations.names).Perm
      (declaredNames items ++ (declarations.extend item).names) := by
  rw [declaredNames_cons, List.append_assoc]
  have swapped := List.perm_append_comm_assoc item.declared?.toList (declaredNames items)
    declarations.names
  exact swapped.trans ((names_extend declarations item).symm.append_left (declaredNames items))

theorem foldlM_declare_eq_ok_iff {declarations extended : Declarations}
    (distinct : declarations.names.Nodup) {items : List Item} :
    items.foldlM declare declarations = .ok extended ↔
      (∀ item ∈ items, item.WellFormed) ∧
        (declaredNames items ++ declarations.names).Nodup ∧
        extended = items.foldl extend declarations := by
  induction items generalizing declarations with
  | nil => simp [declaredNames, distinct, pure, Except.pure, eq_comm]
  | cons item items induction =>
      rw [List.foldlM_cons, bind_eq_ok_iff, List.forall_mem_cons, List.foldl_cons,
        (names_cons declarations item items).nodup_iff]
      simp only [declare_eq_ok_iff]
      have fresh_iff : (declarations.extend item).names.Nodup ↔
          ∀ name ∈ item.declared?, name ∉ declarations.names := by
        rw [(names_extend declarations item).nodup_iff]
        cases item.declared? <;> simp [distinct]
      constructor
      · rintro ⟨_, ⟨wellFormed, fresh, rfl⟩, more⟩
        rcases (induction (fresh_iff.mpr fresh)).mp more with ⟨others, allDistinct, rfl⟩
        exact ⟨⟨wellFormed, others⟩, allDistinct, rfl⟩
      · rintro ⟨⟨wellFormed, others⟩, allDistinct, rfl⟩
        have extendedDistinct := (List.nodup_append.mp allDistinct).2.1
        exact ⟨_, ⟨wellFormed, fresh_iff.mp extendedDistinct, rfl⟩,
          (induction extendedDistinct).mpr ⟨others, allDistinct, rfl⟩⟩

def gathered (items : List Item) : Declarations :=
  items.foldl extend empty

theorem ofItems_eq_ok_iff {items : List Item} {declarations : Declarations} :
    ofItems items = .ok declarations ↔
      (∀ item ∈ items, item.WellFormed) ∧ (declaredNames items).Nodup ∧
        declarations = gathered items := by
  have noNames : empty.names = [] := rfl
  have distinct : empty.names.Nodup := noNames ▸ List.nodup_nil
  rw [ofItems, foldlM_declare_eq_ok_iff distinct, noNames, List.append_nil]
  rfl

/-! ## Tables -/

/-- Looking a name up in the declarations finds what the items declare under it. -/
structure Reflects (declarations : Declarations) (items : List Item) : Prop where
  definition : ∀ name target,
    declarations.definition? name = some target ↔ Defines items name target
  caveat : ∀ name, declarations.caveats.contains name = true ↔
    ∃ caveat : Caveat, .caveat caveat ∈ items ∧ caveat.name.text = name
  expiration : declarations.expiration = true ↔ ∃ feature, .feature feature ∈ items

theorem mem_definitions_foldl {declarations : Declarations} {items : List Item}
    {definition : Definition} :
    definition ∈ (items.foldl extend declarations).definitions ↔
      .definition definition ∈ items ∨ definition ∈ declarations.definitions := by
  induction items generalizing declarations with
  | nil => simp
  | cons item items induction =>
      rw [List.foldl_cons, induction]
      cases item <;> simp [extend, or_left_comm, or_assoc]

theorem mem_caveats_foldl {declarations : Declarations} {items : List Item} {name : String} :
    name ∈ (items.foldl extend declarations).caveats ↔
      (∃ caveat : Caveat, .caveat caveat ∈ items ∧ caveat.name.text = name) ∨
        name ∈ declarations.caveats := by
  induction items generalizing declarations with
  | nil => simp
  | cons item items induction =>
      rw [List.foldl_cons, induction]
      cases item <;> simp [extend, or_and_right, exists_or, or_left_comm, or_assoc, eq_comm]

theorem expiration_foldl {declarations : Declarations} {items : List Item} :
    (items.foldl extend declarations).expiration = true ↔
      (∃ feature, .feature feature ∈ items) ∨ declarations.expiration = true := by
  induction items generalizing declarations with
  | nil => simp
  | cons item items induction =>
      rw [List.foldl_cons, induction]
      cases item <;> simp [extend]

theorem names_gathered (items : List Item) : (gathered items).names.Perm (declaredNames items) := by
  have general (declarations : Declarations) : (items.foldl extend declarations).names.Perm
      (declaredNames items ++ declarations.names) := by
    induction items generalizing declarations with
    | nil => exact .refl _
    | cons item items induction =>
        exact (induction (declarations.extend item)).trans
          (names_cons declarations item items).symm
  have names := general empty
  rwa [show empty.names = [] from rfl, List.append_nil] at names

theorem reflects_gathered {items : List Item} (distinct : (declaredNames items).Nodup) :
    (gathered items).Reflects items where
  definition name target := by
    have allDistinct := (names_gathered items).nodup_iff.mpr distinct
    rw [definition?, find?_eq_some_iff_of_nodup (List.nodup_append.mp allDistinct).1, gathered,
      mem_definitions_foldl, Defines]
    simp [empty]
  caveat name := by
    rw [List.contains_iff_mem, gathered, mem_caveats_foldl]
    simp [empty]
  expiration := by
    rw [gathered, expiration_foldl]
    simp [empty]

end Declarations
end PermissionTypes.Schema
