import PermissionTypes.Proofs.Schema.FirstViolation
import PermissionTypes.Proofs.Schema.TreeNames

/-! Every violation is about a name of the tree, and its message says which. -/

namespace PermissionTypes.Schema

/-! ## Messages -/

def Occurs (name message : String) : Prop :=
  name.toList <:+: message.toList

namespace Occurs

theorem refl (name : String) : Occurs name name :=
  List.infix_refl _

theorem append_left {name message : String} (occurs : Occurs name message) (more : String) :
    Occurs name (message ++ more) := by
  rw [Occurs, String.toList_append]
  exact occurs.trans (List.prefix_append _ _).isInfix

theorem append_right {name message : String} (occurs : Occurs name message) (more : String) :
    Occurs name (more ++ message) := by
  rw [Occurs, String.toList_append]
  exact occurs.trans (List.suffix_append _ _).isInfix

theorem ticked (name : String) : Occurs name (Violation.ticked name) :=
  ((refl name).append_right _).append_left _

theorem memberOf (type name : String) : Occurs name (Violation.memberOf type name) :=
  (((refl name).append_right _).append_right _).append_left _

end Occurs

/-- That expiration is not enabled is said without the name of the trait, which is known. -/
def Violation.TellsName : Violation → Prop
  | .expirationNotEnabled trait => trait.text = "expiration"
  | _ => True

theorem Violation.TellsName.occurs {violation : Violation} (tells : violation.TellsName) :
    Occurs violation.name.text violation.describe := by
  cases violation with
  | unknownFeature feature => exact (Occurs.ticked _).append_right _
  | malformedCaveatName caveat =>
      exact (((Occurs.ticked _).append_right _).append_left _).append_left _
  | malformedTypeName type =>
      exact (((Occurs.ticked _).append_right _).append_left _).append_left _
  | reusedName name => exact (Occurs.ticked _).append_right _
  | repeatedParameter caveat parameter => exact (Occurs.ticked _).append_right _
  | unknownParameterType caveat parameter => exact (Occurs.ticked _).append_right _
  | blankExpression caveat => exact ((Occurs.ticked _).append_right _).append_left _
  | malformedMemberName type member =>
      exact (Occurs.ticked _).append_right _ |>.append_left _ |>.append_left _ |>.append_left _
        |>.append_left _
  | repeatedMember type member =>
      exact (((Occurs.ticked _).append_right _).append_left _).append_left _
  | unknownSubjectType type relation subject => exact (Occurs.ticked _).append_right _
  | unknownSubjectRelation type relation subjectType subjectRelation =>
      exact (Occurs.memberOf _ _).append_right _
  | expirationNotEnabled trait =>
      have first : Occurs "expiration" "expiration trait is not enabled" :=
        (Occurs.refl "expiration").append_left " trait is not enabled"
      rw [Violation.name, tells]
      exact first.append_left "; add `use expiration` to the schema"
  | unknownCaveat type relation trait => exact (Occurs.ticked _).append_right _
  | unknownMember type permission member =>
      exact ((Occurs.ticked _).append_right _).append_left _
  | walkFromPermission type permission arrow member => exact (Occurs.ticked _).append_right _
  | unreachableTarget type permission relation target =>
      exact (((Occurs.ticked _).append_right _).append_left _).append_left _

/-! ## Violations about names -/

structure Violation.IsAbout (names : List Name) (violation : Violation) : Prop where
  mem : violation.name ∈ names
  tells : violation.TellsName

def AllAbout (names : List Name) (violations : List Violation) : Prop :=
  ∀ violation ∈ violations, violation.IsAbout names

namespace AllAbout

variable {names more : List Name}

theorem nil : AllAbout names [] :=
  List.forall_mem_nil _

theorem mono {violations : List Violation} (allAbout : AllAbout names violations)
    (subset : names ⊆ more) : AllAbout more violations :=
  fun violation found => ⟨subset (allAbout violation found).mem, (allAbout violation found).tells⟩

theorem require {holds : Prop} [Decidable holds] {violation : Violation}
    (isAbout : violation.IsAbout names) : AllAbout names (require holds violation) := by
  rw [Schema.require]
  split
  · exact nil
  · exact List.forall_mem_singleton.mpr isAbout

theorem append {front back : List Violation} (frontAbout : AllAbout names front)
    (backAbout : AllAbout names back) : AllAbout names (front ++ back) :=
  List.forall_mem_append.mpr ⟨frontAbout, backAbout⟩

theorem flatMap {values : List α} {find : α → List Violation}
    (allAbout : ∀ value ∈ values, AllAbout names (find value)) :
    AllAbout names (values.flatMap find) := by
  intro violation found
  rcases List.mem_flatMap.mp found with ⟨value, member, found⟩
  exact allAbout value member violation found

theorem inOrder {values : List α} {find : List α → α → List Violation}
    (allAbout : ∀ before, ∀ value ∈ values, AllAbout names (find before value)) :
    AllAbout names (inOrder find values) :=
  flatMap fun found member => allAbout found.1 found.2 (List.of_mem_zip member).2

end AllAbout

/-! ## Declarations -/

theorem Caveat.allAbout_violations (taken : List String) (declared : Caveat) :
    AllAbout [declared.name] (declared.violations taken) := by
  have isName (violation : Violation) (about : violation.name = declared.name)
      (tells : violation.TellsName) : violation.IsAbout [declared.name] :=
    ⟨List.mem_singleton.mpr about, tells⟩
  refine .append (.require (isName _ rfl trivial)) (.append (.require (isName _ rfl trivial)) ?_)
  refine .append (.inOrder fun before parameter _ => ?_) (.require (isName _ rfl trivial))
  exact .append (.require (isName _ rfl trivial)) (.require (isName _ rfl trivial))

theorem Member.name_mem_names (member : Member) : member.name ∈ member.names := by
  cases member <;> exact List.mem_cons_self ..

theorem Definition.allAbout_nameViolations (taken : List String) (declared : Definition) :
    AllAbout (Item.definition declared).names (declared.nameViolations taken) := by
  have ownName : declared.name ∈ (Item.definition declared).names := List.mem_cons_self ..
  refine .append (.require ⟨ownName, trivial⟩) (.append (.require ⟨ownName, trivial⟩) ?_)
  refine .inOrder fun before member found => ?_
  have memberName : member.name ∈ (Item.definition declared).names :=
    List.mem_cons_of_mem _ (List.mem_flatMap.mpr ⟨member, found, member.name_mem_names⟩)
  exact .append (.require ⟨memberName, trivial⟩) (.require ⟨memberName, trivial⟩)

theorem Item.allAbout_violations (before : List Item) (item : Item) :
    AllAbout item.names (item.violations before) := by
  cases item with
  | feature name => exact .require ⟨List.mem_singleton_self name, trivial⟩
  | caveat declared => exact declared.allAbout_violations _
  | definition declared => exact declared.allAbout_nameViolations _

theorem names_subset_namesOf {items : List Item} {item : Item} (member : item ∈ items) :
    item.names ⊆ namesOf items :=
  fun _ found => List.mem_flatMap.mpr ⟨item, member, found⟩

theorem allAbout_declarationViolations (items : List Item) :
    AllAbout (namesOf items) (declarationViolations items) :=
  .inOrder fun before item member =>
    (item.allAbout_violations before).mono (names_subset_namesOf member)

/-! ## References -/

section References

variable (items : List Item)

theorem allAbout_traitViolations (type relation : String) (trait : Name) :
    AllAbout [trait] (traitViolations items type relation trait) := by
  apply AllAbout.require
  split
  · rename_i isExpiration
    exact ⟨List.mem_singleton_self trait, isExpiration⟩
  · exact ⟨List.mem_singleton_self trait, trivial⟩

theorem SubjectType.allAbout_violations (type relation : String) (subjects : SubjectType) :
    AllAbout subjects.names (subjects.violations items type relation) := by
  rcases subjects with ⟨subjectType, subject, traits⟩
  have subjectAbout : AllAbout subject.names (subject.violations items type relation
      subjectType.text) := by
    cases subject with
    | object => exact .nil
    | everyone => exact .nil
    | relation name => exact .require ⟨List.mem_singleton_self name, trivial⟩
  have traitsAbout : AllAbout traits (traits.flatMap (traitViolations items type relation)) :=
    .flatMap fun trait member =>
      (allAbout_traitViolations items type relation trait).mono (by simpa using member)
  refine .append (.require ⟨List.mem_cons_self .., trivial⟩) (.append ?_ ?_)
  · exact subjectAbout.mono fun _ found => by simp [names, found]
  · exact traitsAbout.mono fun _ found => by simp [names, found]

theorem Use.allAbout_violations (definition : Definition) (permission : String) (use : Use) :
    AllAbout use.names (use.violations items definition permission) := by
  cases use with
  | member name => exact .require ⟨List.mem_singleton_self name, trivial⟩
  | walk arrow name target =>
      have relationName : name ∈ (Use.walk arrow name target).names := List.mem_cons_self ..
      rw [violations]
      split
      · exact List.forall_mem_singleton.mpr ⟨relationName, trivial⟩
      · exact List.forall_mem_singleton.mpr ⟨relationName, trivial⟩
      · exact .require ⟨List.mem_cons_of_mem _ (List.mem_singleton_self target), trivial⟩

theorem Member.allAbout_violations (definition : Definition) (member : Member) :
    AllAbout member.names (member.violations items definition) := by
  cases member with
  | relation name types =>
      refine .flatMap fun subjects found => ?_
      refine (subjects.allAbout_violations items definition.name.text name.text).mono ?_
      exact fun _ inSubjects =>
        List.mem_cons_of_mem _ (List.mem_flatMap.mpr ⟨subjects, found, inSubjects⟩)
  | permission name expression =>
      refine .flatMap fun use found => ?_
      refine (use.allAbout_violations items definition name.text).mono ?_
      exact fun _ inUse => List.mem_cons_of_mem _ (List.mem_flatMap.mpr ⟨use, found, inUse⟩)

theorem Definition.allAbout_violations (definition : Definition) :
    AllAbout (Item.definition definition).names (definition.violations items) :=
  .flatMap fun member found => (member.allAbout_violations items definition).mono
    fun _ inMember => List.mem_cons_of_mem _ (List.mem_flatMap.mpr ⟨member, found, inMember⟩)

theorem allAbout_referenceViolations :
    AllAbout (namesOf items) (referenceViolations items) :=
  .flatMap fun definition found => (definition.allAbout_violations items).mono
    (names_subset_namesOf (mem_definitionsOf_iff.mp found))

theorem allAbout_violations : AllAbout (namesOf items) (violations items) :=
  (allAbout_declarationViolations items).append (allAbout_referenceViolations items)

end References

theorem isAbout_of_check {items : List Item} {violation : Violation}
    (rejected : check items = .error violation) : violation.IsAbout (namesOf items) := by
  rw [check_eq_report] at rejected
  exact allAbout_violations items violation
    (List.mem_of_head? (report_eq_error_iff.mp rejected))

end PermissionTypes.Schema
