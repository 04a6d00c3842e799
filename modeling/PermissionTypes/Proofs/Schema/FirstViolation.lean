import PermissionTypes.Proofs.Schema.ReferenceChecks
import PermissionTypes.Proofs.Schema.Violations
import PermissionTypes.Schema.Compilation

/-! Of all violations of a schema, the first one is reported. Each check is put together from others
in the order of its violations, so what it answers is the report of a list that is put together in
the same way. -/

namespace PermissionTypes.Schema

/-! ## Reports -/

/-- The result, or the first of the violations if there are any. -/
def report (violations : List Violation) (result : α) : Except Violation α :=
  match violations with
  | [] => .ok result
  | violation :: _ => .error violation

theorem report_eq_error_iff {violations : List Violation} {result : α} {violation : Violation} :
    report violations result = .error violation ↔ violations.head? = some violation := by
  cases violations <;> simp [report]

theorem report_eq_ok_iff {violations : List Violation} {value result : α} :
    report violations value = .ok result ↔ violations = [] ∧ value = result := by
  cases violations <;> simp [report]

/-- Behind a check the violations of the next one count, given what the check came to. -/
theorem report_bind {first more : List Violation} {value : α} {next : α → Except Violation β}
    {result : β} (goesOn : first = [] → next value = report more result) :
    (report first value >>= next) = report (first ++ more) result := by
  cases first with
  | nil => exact goesOn rfl
  | cons violation violations => rfl

theorem report_map {violations : List Violation} {value : α} {change : α → β} :
    (report violations value >>= fun value => pure (change value)) =
      report violations (change value) := by
  cases violations <;> rfl

theorem refuse_eq_report {refused holds : Prop} [Decidable refused] [Decidable holds]
    {violation : Violation} {next : Except Violation α} {more : List Violation} {result : α}
    (opposite : refused ↔ ¬ holds) (goesOn : next = report more result) :
    (if refused then .error violation else next) =
      report (require holds violation ++ more) result := by
  by_cases isHeld : holds
  · rw [if_neg (not_not_intro isHeld ∘ opposite.mp), goesOn, require, if_pos isHeld,
      List.nil_append]
  · rw [if_pos (opposite.mpr isHeld), require, if_neg isHeld]
    rfl

theorem accept_eq_report {accepted holds : Prop} [Decidable accepted] [Decidable holds]
    {violation : Violation} (same : accepted ↔ holds) :
    (if accepted then .ok () else .error violation) = report (require holds violation) () := by
  by_cases isHeld : holds
  · rw [if_pos (same.mpr isHeld), require, if_pos isHeld]
    rfl
  · rw [if_neg (isHeld ∘ same.mp), require, if_neg isHeld]
    rfl

theorem forM_eq_report {check : α → Except Violation Unit} {find : α → List Violation}
    (each : ∀ value, check value = report (find value) ()) (values : List α) :
    values.forM check = report (values.flatMap find) () := by
  induction values with
  | nil => rfl
  | cons value values induction =>
      change (check value >>= fun _ => values.forM check) = _
      rw [each, List.flatMap_cons]
      exact report_bind fun _ => induction

theorem mapM_eq_report {check : α → Except Violation β} {find : α → List Violation}
    {project : α → β} (each : ∀ value, check value = report (find value) (project value))
    (values : List α) :
    values.mapM check = report (values.flatMap find) (values.map project) := by
  induction values with
  | nil => rfl
  | cons value values induction =>
      rw [List.mapM_cons, each, induction, List.flatMap_cons]
      exact report_bind fun _ => report_map

/-! ## Declarations -/

/-! The checks of parameters and members keep the names that they have seen. These count only as
far as they stand before. -/

theorem seen_nil (key : α → String) (name : String) : name ∈ [] ↔ name ∈ [].map key :=
  Iff.rfl

theorem seen_append {key : α → String} {front : List α} {before : List String}
    (seen : ∀ name, name ∈ before ↔ name ∈ front.map key) (value : α) :
    ∀ name, name ∈ key value :: before ↔ name ∈ (front ++ [value]).map key := by
  intro name
  rw [List.map_append, List.mem_append, List.mem_cons, seen, or_comm, List.map_singleton,
    List.mem_singleton]

theorem Parameter.checkAll_eq_report {caveat : Name} {front : List Parameter}
    {before : List String} (seen : ∀ name, name ∈ before ↔ name ∈ front.map (·.name))
    (parameters : List Parameter) :
    Parameter.checkAll caveat before parameters =
      report (inOrder (fun earlier => Parameter.violations caveat (front ++ earlier)) parameters)
        () := by
  induction parameters generalizing front before with
  | nil => rfl
  | cons parameter parameters induction =>
      rw [Parameter.checkAll, inOrder_cons, Parameter.violations, List.append_nil,
        List.append_assoc]
      apply refuse_eq_report
      · rw [List.contains_iff_mem, seen, not_not]
      · apply refuse_eq_report
        · rw [Bool.not_eq_true', ← Bool.not_eq_true, Parameter.isKnown_iff]
        · rw [induction (seen_append seen parameter)]
          simp only [List.append_assoc, List.singleton_append]

theorem Caveat.check_eq_report (caveat : Caveat) :
    caveat.check =
      report (inOrder (Parameter.violations caveat.name) caveat.parameters ++
        require (∃ character ∈ caveat.expression.toList, Text.isBlankCharacter character = false)
          (.blankExpression caveat.name)) () := by
  have parameters : Parameter.checkAll caveat.name [] caveat.parameters =
      report (inOrder (Parameter.violations caveat.name) caveat.parameters) () :=
    Parameter.checkAll_eq_report (seen_nil _) caveat.parameters
  rw [Caveat.check, parameters]
  apply report_bind
  intro _
  rw [← List.append_nil (require _ _)]
  apply refuse_eq_report
  · rw [← not_isBlank_iff, not_not]
  · rfl

theorem Member.checkNames_eq_report {type : String} {front : List Member} {before : List String}
    (seen : ∀ name, name ∈ before ↔ name ∈ front.map (·.name.text)) (members : List Member) :
    Member.checkNames type before members =
      report (inOrder (fun earlier => Member.nameViolations type (front ++ earlier)) members)
        () := by
  induction members generalizing front before with
  | nil => rfl
  | cons member members induction =>
      rw [Member.checkNames, inOrder_cons, Member.nameViolations, List.append_nil,
        List.append_assoc]
      apply refuse_eq_report
      · rw [Bool.not_eq_true', ← Bool.not_eq_true, isDeclaredName_iff]
      · apply refuse_eq_report
        · rw [List.contains_iff_mem, seen, not_not]
        · rw [induction (seen_append seen member)]
          simp only [List.append_assoc, List.singleton_append]

namespace Declarations

theorem declare_eq_report {declarations : Declarations} {before : List Item}
    (seen : ∀ name, name ∈ declarations.names ↔ name ∈ declaredNames before) (item : Item) :
    declarations.declare item = report (item.violations before) (declarations.extend item) := by
  have taken_iff (name : String) :
      declarations.isTaken name = true ↔ ¬ name ∉ declaredNames before := by
    rw [isTaken_iff, seen, not_not]
  have malformed_iff (name : List Char) :
      (!NameRule.allowsPath name) = true ↔ ¬ IsDeclaredPath name := by
    rw [Bool.not_eq_true', ← Bool.not_eq_true, isDeclaredPath_iff]
  cases item with
  | feature name =>
      rw [declare, Item.violations, knownFeature, require]
      by_cases known : name.text = "expiration"
      · simp [known, report, extend]
      · simp [known, report]
  | caveat declared =>
      rw [declare, Item.violations, Caveat.violations]
      apply refuse_eq_report (malformed_iff _)
      apply refuse_eq_report (taken_iff _)
      rw [Caveat.check_eq_report]
      exact report_map
  | definition declared =>
      have members : Member.checkNames declared.name.text [] declared.members =
          report (inOrder (Member.nameViolations declared.name.text) declared.members) () :=
        Member.checkNames_eq_report (seen_nil _) declared.members
      rw [declare, Item.violations, Definition.nameViolations]
      apply refuse_eq_report (malformed_iff _)
      apply refuse_eq_report (taken_iff _)
      rw [members]
      exact report_map

theorem foldlM_declare_eq_report {declarations : Declarations} {before : List Item}
    (seen : ∀ name, name ∈ declarations.names ↔ name ∈ declaredNames before)
    (items : List Item) :
    items.foldlM declare declarations =
      report (inOrder (fun earlier => Item.violations (before ++ earlier)) items)
        (items.foldl extend declarations) := by
  induction items generalizing declarations before with
  | nil => rfl
  | cons item items induction =>
      have seenNext : ∀ name, name ∈ (declarations.extend item).names ↔
          name ∈ declaredNames (before ++ [item]) := by
        intro name
        have appended : declaredNames (before ++ [item]) =
            declaredNames before ++ item.declared?.toList := by
          rw [declaredNames, List.filterMap_append]
          cases item <;> rfl
        rw [(names_extend declarations item).mem_iff, appended, List.mem_append, List.mem_append,
          seen, or_comm]
      rw [List.foldlM_cons, declare_eq_report seen, inOrder_cons, List.append_nil,
        List.foldl_cons]
      apply report_bind
      intro _
      rw [induction seenNext]
      simp only [List.append_assoc, List.singleton_append]

theorem ofItems_eq_report (items : List Item) :
    ofItems items = report (declarationViolations items) (gathered items) := by
  have seen (name : String) : name ∈ empty.names ↔ name ∈ declaredNames [] := Iff.rfl
  exact foldlM_declare_eq_report seen items

/-! ## References -/

section References

variable {declarations : Declarations} {items : List Item}

theorem checkTrait_eq_report (reflects : declarations.Reflects items) (type relation : String)
    (trait : Name) :
    declarations.checkTrait type relation trait =
      report (traitViolations items type relation trait) () := by
  rw [checkTrait, traitViolations, expirationTrait]
  by_cases expires : trait.text = "expiration"
  · rw [if_pos (beq_iff_eq.mpr expires), if_pos expires]
    apply accept_eq_report
    simp [TraitResolves, reflects.expiration, expires]
  · rw [if_neg (mt beq_iff_eq.mp expires), if_neg expires]
    apply accept_eq_report
    rw [reflects.caveat, TraitResolves]
    simp [expires]

theorem checkSubjectRelation_eq_report (reflects : declarations.Reflects items)
    {subjectType : String} {target : Definition} (defined : Defines items subjectType target)
    (type relation : String) (subject : Subject) :
    checkSubjectRelation type relation target subject =
      report (subject.violations items type relation subjectType) () := by
  cases subject with
  | object => rfl
  | everyone => rfl
  | relation name =>
      rw [checkSubjectRelation, Subject.violations, defined.2]
      apply accept_eq_report
      rw [Definition.isSome_member?_iff]
      constructor
      · intro hasMember
        exact ⟨target, defined, hasMember⟩
      · intro found
        rcases found with ⟨other, otherDefined, hasMember⟩
        rwa [definition?_unique reflects defined otherDefined]

theorem checkSubjectType_eq_report (reflects : declarations.Reflects items)
    (type relation : String) (subjects : SubjectType) :
    declarations.checkSubjectType type relation subjects =
      report (subjects.violations items type relation) () := by
  rw [checkSubjectType, SubjectType.violations]
  cases found : declarations.definition? subjects.type.text with
  | none =>
      have missing : ¬ ∃ target, Defines items subjects.type.text target := by
        intro defined
        rcases defined with ⟨target, defined⟩
        rw [(reflects.definition _ target).mpr defined] at found
        cases found
      rw [require, if_neg missing]
      rfl
  | some target =>
      have defined := (reflects.definition _ target).mp found
      rw [require, if_pos ⟨target, defined⟩, List.nil_append]
      simp only [checkSubjectRelation_eq_report reflects defined]
      apply report_bind
      intro _
      exact forM_eq_report (checkTrait_eq_report reflects type relation) subjects.traits

theorem walkIsPlausible_iff (reflects : declarations.Reflects items) {types : List SubjectType}
    {target : String} :
    ((declarations.walkTargets types).isEmpty ||
      (declarations.walkTargets types).any fun type => (type.member? target).isSome) = true ↔
      WalkIsPlausible items types target := by
  rw [Bool.or_eq_true, List.isEmpty_iff, List.any_eq_true, List.eq_nil_iff_forall_not_mem]
  simp only [mem_walkTargets_iff reflects, Definition.isSome_member?_iff]
  apply or_congr
  · constructor
    · intro nowhere subjects member others defined
      rcases defined with ⟨definition, defined⟩
      exact nowhere definition ⟨subjects, member, others, defined⟩
    · intro undefined definition found
      rcases found with ⟨subjects, member, others, defined⟩
      exact undefined subjects member others ⟨definition, defined⟩
  · constructor
    · intro found
      rcases found with ⟨definition, ⟨subjects, member, others, defined⟩, hasMember⟩
      exact ⟨subjects, member, others, definition, defined, hasMember⟩
    · intro arrives
      rcases arrives with ⟨subjects, member, others, definition, defined, hasMember⟩
      exact ⟨definition, ⟨subjects, member, others, defined⟩, hasMember⟩

theorem checkWalk_eq_report (reflects : declarations.Reflects items) (definition : Definition)
    (permission : String) (arrow : Arrow) (relation target : Name) :
    declarations.checkWalk definition permission arrow relation target =
      report ((Use.walk arrow relation target).violations items definition permission) () := by
  rw [checkWalk, Use.violations]
  cases definition.member? relation.text with
  | none => rfl
  | some member =>
      cases member with
      | permission name expression => rfl
      | relation name types => exact accept_eq_report (walkIsPlausible_iff reflects)

theorem checkOperands_eq_report {definition : Definition} {permission : String}
    {operands : List Expression}
    (each : ∀ operand ∈ operands, declarations.checkExpression definition permission operand =
      report (operand.uses.flatMap (Use.violations items definition permission)) ()) :
    declarations.checkOperands definition permission operands =
      report ((Expression.usesOfAll operands).flatMap
        (Use.violations items definition permission)) () := by
  induction operands with
  | nil =>
      rw [checkOperands]
      rfl
  | cons operand operands induction =>
      rcases List.forall_mem_cons.mp each with ⟨first, more⟩
      rw [checkOperands, first, Expression.usesOfAll, List.flatMap_append]
      exact report_bind fun _ => induction more

theorem checkExpression_eq_report (reflects : declarations.Reflects items)
    (definition : Definition) (permission : String) (expression : Expression) :
    declarations.checkExpression definition permission expression =
      report (expression.uses.flatMap (Use.violations items definition permission)) () := by
  induction expression using Expression.induction_on_operands with
  | nothing =>
      rw [checkExpression]
      rfl
  | member name =>
      rw [checkExpression, Expression.uses, List.flatMap_singleton]
      exact accept_eq_report Definition.isSome_member?_iff
  | walk arrow relation target =>
      rw [checkExpression, Expression.uses, List.flatMap_singleton]
      exact checkWalk_eq_report reflects definition permission arrow relation target
  | union operands induction =>
      rw [checkExpression, Expression.uses]
      exact checkOperands_eq_report induction
  | intersection operands induction =>
      rw [checkExpression, Expression.uses]
      exact checkOperands_eq_report induction
  | exclusion base removed baseInduction removedInduction =>
      rw [checkExpression, baseInduction, Expression.uses, List.flatMap_append]
      exact report_bind fun _ => removedInduction

theorem resolveMember_eq_report (reflects : declarations.Reflects items)
    (definition : Definition) (member : Member) :
    declarations.resolveMember definition member =
      report (member.violations items definition) member.object := by
  cases member with
  | relation name types =>
      rw [resolveMember, forM_eq_report
        (checkSubjectType_eq_report reflects definition.name.text name.text)]
      exact report_map
  | permission name expression =>
      rw [resolveMember, checkExpression_eq_report reflects]
      exact report_map

theorem resolveDefinition_eq_report (reflects : declarations.Reflects items)
    (definition : Definition) :
    declarations.resolveDefinition definition =
      report (definition.violations items) definition.object := by
  rw [resolveDefinition, mapM_eq_report (resolveMember_eq_report reflects definition)]
  exact report_map

theorem resolve_eq_report (reflects : declarations.Reflects items) (written : List Item) :
    declarations.resolve written =
      report ((definitionsOf written).flatMap (Definition.violations items))
        (objectModel written) := by
  induction written with
  | nil => rfl
  | cons item written induction =>
      cases item with
      | feature name => rw [resolve, induction]; rfl
      | caveat declared =>
          rw [resolve, induction]
          exact report_map
      | definition declared =>
          rw [resolve, resolveDefinition_eq_report reflects, induction]
          exact report_bind fun _ => report_map

end References

end Declarations

/-! ## Schemas -/

/-- The answer of the check is the report of all violations. -/
theorem check_eq_report (items : List Item) :
    check items = report (violations items) (objectModel items) := by
  rw [check, Declarations.ofItems_eq_report]
  apply report_bind
  intro declared
  have gathers : Declarations.ofItems items = .ok (Declarations.gathered items) := by
    rw [Declarations.ofItems_eq_report, declared]
    rfl
  have distinct := (Declarations.ofItems_eq_ok_iff.mp gathers).2.1
  exact Declarations.resolve_eq_report (Declarations.reflects_gathered distinct) items

theorem violations_eq_nil_iff {items : List Item} : violations items = [] ↔ WellFormed items := by
  constructor
  · intro none
    have accepted : check items = .ok (objectModel items) := by
      rw [check_eq_report, none]
      rfl
    exact (of_check accepted).1
  · intro wellFormed
    have accepted := check_of_wellFormed wellFormed
    rw [check_eq_report] at accepted
    exact (report_eq_ok_iff.mp accepted).1

theorem check_eq_error_iff {items : List Item} {violation : Violation} :
    check items = .error violation ↔
      (declarationViolations items).head? = some violation ∨
        declarationViolations items = [] ∧
          (referenceViolations items).head? = some violation := by
  rw [check_eq_report, report_eq_error_iff, violations]
  cases declarationViolations items <;> simp

theorem compile_eq_error_iff {schema : String} {items : List Item}
    (read : parse schema = .ok items) {diagnostic : Diagnostic} :
    compile schema = .error diagnostic ↔
      ∃ violation, check items = .error violation ∧ violation.diagnostic schema = diagnostic := by
  rw [compile, read]
  cases checked : check items with
  | error violation => simp [checked]
  | ok model => simp [checked]

/-- What is reported is the first violation of the schema: the first one of its declarations, or,
if these have none, the first one of its references. The diagnostic of a text is the one of the
violation that is reported for its items. -/
theorem first_violation_is_reported (items : List Item) :
    (∀ violation, check items = .error violation ↔
      (declarationViolations items).head? = some violation ∨
        declarationViolations items = [] ∧
          (referenceViolations items).head? = some violation) ∧
      ∀ schema, parse schema = .ok items → ∀ diagnostic,
        compile schema = .error diagnostic ↔
          ∃ violation, check items = .error violation ∧
            violation.diagnostic schema = diagnostic :=
  ⟨fun _ => check_eq_error_iff, fun _ read _ => compile_eq_error_iff read⟩

/-! ### A schema whose first violation stands behind another one -/

def twiceText : String :=
  "definition doc\x7brelation own:gone\x7ddefinition doc\x7brelation r:doc\x7d"

def twiceItems : List Item :=
  [.definition {
      name := ⟨"doc", 11⟩
      members := [.relation ⟨"own", 24⟩
        [{ type := ⟨"gone", 28⟩, subject := .object, traits := [] }]] },
    .definition {
      name := ⟨"doc", 44⟩
      members := [.relation ⟨"r", 57⟩
        [{ type := ⟨"doc", 59⟩, subject := .object, traits := [] }]] }]

theorem parse_twiceText : parse twiceText = .ok twiceItems := by
  with_unfolding_all rfl

theorem declarationViolations_twiceItems :
    declarationViolations twiceItems =
      [.reusedName ⟨"doc", 44⟩, .malformedMemberName "doc" ⟨"r", 57⟩] := by
  with_unfolding_all rfl

def twiceDiagnostic : Diagnostic where
  message := "found name reused between multiple definitions and/or caveats: `doc`"
  position := some { line := 1, column := 45 }

theorem diagnostic_twiceText :
    (Violation.reusedName ⟨"doc", 44⟩).diagnostic twiceText = twiceDiagnostic := by
  with_unfolding_all rfl

/-- The name that is used twice is reported, although a type that is unknown is named before. -/
theorem first_violation_is_reported_sample :
    parse twiceText = .ok twiceItems ∧
      referenceViolations twiceItems = [.unknownSubjectType "doc" "own" ⟨"gone", 28⟩] ∧
      check twiceItems = .error (.reusedName ⟨"doc", 44⟩) ∧
      compile twiceText = .error twiceDiagnostic := by
  have reported := first_violation_is_reported twiceItems
  have checked : check twiceItems = .error (.reusedName ⟨"doc", 44⟩) := by
    rw [reported.1, declarationViolations_twiceItems]
    exact .inl rfl
  refine ⟨parse_twiceText, by with_unfolding_all rfl, checked, ?_⟩
  exact (reported.2 _ parse_twiceText _).mpr ⟨_, checked, diagnostic_twiceText⟩

end PermissionTypes.Schema
