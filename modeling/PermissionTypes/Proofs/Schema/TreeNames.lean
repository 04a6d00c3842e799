import PermissionTypes.Proofs.Schema.SchemaReading
import PermissionTypes.Proofs.Schema.Concatenation
import PermissionTypes.Proofs.Schema.Uses

/-! The names of a tree, in the order in which they are written. In a text of the grammar they all
stand where the tree says, one behind the other. -/

namespace PermissionTypes.Schema

open Text (byteLength byteLength_append)

/-! ## Names -/

def Use.names : Use → List Name
  | .member name => [name]
  | .walk _ relation target => [relation, target]

def Expression.names (expression : Expression) : List Name :=
  expression.uses.flatMap Use.names

def Subject.names : Subject → List Name
  | .object => []
  | .everyone => []
  | .relation name => [name]

def SubjectType.names (subjects : SubjectType) : List Name :=
  subjects.type :: (subjects.subject.names ++ subjects.traits)

def Member.names : Member → List Name
  | .relation name types => name :: types.flatMap SubjectType.names
  | .permission name expression => name :: expression.names

/-- Parameters and what a caveat says about them are kept as texts and are no names. -/
def Item.names : Item → List Name
  | .feature name => [name]
  | .caveat declared => [declared.name]
  | .definition declared => declared.name :: declared.members.flatMap Member.names

def namesOf (items : List Item) : List Name :=
  items.flatMap Item.names

/-! ## Texts that mention names -/

namespace Spelling

def anything : Spelling :=
  .language fun _ => True

/-- Any text in which the names stand in this order, each at its place. -/
def mentioning : List Name → Spelling
  | [] => anything
  | name :: names => anything ++ (.name name ++ mentioning names)

namespace Within

theorem append {front other back another : Spelling} (frontWithin : Within front other)
    (backWithin : Within back another) : Within (front ++ back) (other ++ another) := by
  intro offset text spelled
  rcases spelled with ⟨first, second, equal, apart, frontSpelled, backSpelled⟩
  exact ⟨first, second, equal, apart, frontWithin frontSpelled, backWithin backSpelled⟩

end Within

theorem anything_append_mentioning (names : List Name) :
    Within (anything ++ mentioning names) (mentioning names) := by
  cases names with
  | nil => exact fun _ _ _ => trivial
  | cons name names =>
      rw [mentioning, ← append_assoc]
      exact .append (fun _ _ _ => trivial) (.refl _)

theorem mentioning_append (names more : List Name) :
    Within (mentioning names ++ mentioning more) (mentioning (names ++ more)) := by
  induction names with
  | nil => exact anything_append_mentioning more
  | cons name names induction =>
      rw [mentioning, append_assoc, append_assoc]
      exact .append (.refl _) (.append (.refl _) induction)

/-- Each name is found at its place, and no word goes on across either of its ends. -/
theorem exists_of_mentioning {names : List Name} {offset : Nat} {text : List Char}
    (mentions : mentioning names offset text) {name : Name} (member : name ∈ names) :
    ∃ before rest, text = before ++ (name.text.toList ++ rest) ∧
      name.offset = offset + byteLength before ∧
      Apart before (name.text.toList ++ rest) ∧ Apart name.text.toList rest := by
  induction names generalizing offset text with
  | nil => cases member
  | cons first names induction =>
      rcases mentions with
        ⟨front, _, rfl, apart, _, written, back, rfl, apartBehind, ⟨place, rfl⟩, mentions⟩
      rcases List.mem_cons.mp member with rfl | member
      · exact ⟨front, back, rfl, place, apart, apartBehind⟩
      · rcases induction mentions member with ⟨before, rest, rfl, place, apartHere, apartRest⟩
        refine ⟨front ++ (first.text.toList ++ before), rest, by simp, ?_, ?_, apartRest⟩
        · rw [place, byteLength_append, byteLength_append]
          omega
        · -- Where nothing stands between two names, the words of the first one end all the same.
          refine Apart.append_left_iff.mpr ⟨Apart.append_left_iff.mpr ⟨apartHere, ?_⟩, ?_⟩
          · rintro rfl
            exact apartBehind
          · intro empty
            rcases List.append_eq_nil_iff.mp empty with ⟨noText, rfl⟩
            rwa [noText] at apart

def Mentions (spelling : Spelling) (names : List Name) : Prop :=
  Within spelling (mentioning names)

namespace Mentions

theorem nothing (spelling : Spelling) : Mentions spelling [] :=
  fun _ _ _ => trivial

theorem name (name : Name) : Mentions (.name name) [name] := by
  intro offset text spelled
  have rest : (Spelling.name name ++ anything) offset text :=
    ⟨text, [], (List.append_nil text).symm, .nil_right text, spelled, trivial⟩
  exact ⟨[], text, rfl, .nil_left text, trivial, rest⟩

theorem append {front back : Spelling} {names more : List Name} (first : Mentions front names)
    (second : Mentions back more) : Mentions (front ++ back) (names ++ more) :=
  (Within.append first second).trans (mentioning_append names more)

theorem append_nothing {front : Spelling} {names : List Name} (first : Mentions front names)
    (back : Spelling) : Mentions (front ++ back) names :=
  List.append_nil names ▸ first.append (nothing back)

theorem nothing_append {back : Spelling} {names : List Name} (front : Spelling)
    (second : Mentions back names) : Mentions (front ++ back) names :=
  (nothing front).append second

theorem either {first second : Spelling} {names : List Name} (firstMentions : Mentions first names)
    (secondMentions : Mentions second names) : Mentions (.either first second) names := by
  intro offset text spelled
  rcases spelled with spelled | spelled
  · exact firstMentions spelled
  · exact secondMentions spelled

theorem oneOf {family : ι → Spelling} {names : List Name}
    (mentions : ∀ index, Mentions (family index) names) : Mentions (.oneOf family) names := by
  intro offset text spelled
  rcases spelled with ⟨index, spelled⟩
  exact mentions index spelled

section Lists

variable {spelling : α → Spelling} {namesIn : α → List Name}
  (mentions : ∀ value, Mentions (spelling value) (namesIn value))

include mentions

theorem each (values : List α) :
    Mentions (.each spelling values) (values.flatMap namesIn) := by
  induction values with
  | nil => exact nothing _
  | cons value values induction => exact (mentions value).append induction

theorem separated (separator : Spelling) (values : List α) :
    Mentions (.separated separator spelling values) (values.flatMap namesIn) := by
  cases values with
  | nil => exact nothing _
  | cons value values =>
      exact (mentions value).append (each (fun next => nothing_append _ (mentions next)) values)

end Lists
end Mentions
end Spelling

/-! ## Names in the grammar -/

namespace Grammar

open Spelling (Mentions)

theorem mentions_inParentheses {inner : Spelling} {names : List Name}
    (mentions : Mentions inner names) : Mentions (inParentheses inner) names :=
  ((mentions.nothing_append _).append_nothing _).append_nothing _

theorem mentions_walkTarget (target : Name) (arrow : Arrow) :
    Mentions (walkTarget target arrow) [target] := by
  cases arrow with
  | each => exact .nothing_append _ (.name target)
  | any => exact .nothing_append _ (mentions_inParentheses (.name target))
  | all => exact .nothing_append _ (mentions_inParentheses (.name target))

theorem mentions_simple (expression : Expression) :
    Mentions (simple expression) expression.names := by
  cases expression with
  | nothing => exact .nothing _
  | member name => exact .name name
  | walk arrow relation target =>
      exact (Mentions.name relation).append (mentions_walkTarget target arrow)
  | union operands => exact fun _ _ impossible => impossible.elim
  | intersection operands => exact fun _ _ impossible => impossible.elim
  | exclusion base removed => exact fun _ _ impossible => impossible.elim

theorem mentions_operand {inner : Expression → Spelling}
    (mentions : ∀ expression, Mentions (inner expression) expression.names)
    (expression : Expression) : Mentions (operand inner expression) expression.names :=
  .either (mentions_simple expression) (mentions_inParentheses (mentions expression))

theorem mentions_operation (operator : Char) {combine : Expression → List Expression → Expression}
    (inOrder : ∀ first more, (combine first more).names = (first :: more).flatMap Expression.names)
    {operand : Expression → Spelling}
    (mentions : ∀ expression, Mentions (operand expression) expression.names)
    (expression : Expression) :
    Mentions (operation operator combine operand expression) expression.names := by
  refine .oneOf fun first => .oneOf fun more => ?_
  intro offset text spelled
  rcases spelled with ⟨rfl, spelled⟩
  rw [inOrder]
  exact Mentions.separated mentions _ _ spelled

end Grammar

namespace Expression

theorem names_foldl_exclusion (first : Expression) (more : List Expression) :
    (more.foldl exclusion first).names = (first :: more).flatMap names := by
  induction more generalizing first with
  | nil => simp
  | cons next more induction =>
      rw [List.foldl_cons, induction]
      simp [names, uses]

theorem names_flat {combine : List Expression → Expression}
    (several : ∀ operands, (combine operands).names = operands.flatMap names)
    (first : Expression) (more : List Expression) :
    (flat combine first more).names = (first :: more).flatMap names := by
  cases more with
  | nil => simp [flat]
  | cons next more => rw [flat, several]

theorem names_union (operands : List Expression) :
    (union operands).names = operands.flatMap names := by
  rw [names, uses, usesOfAll_eq, List.flatMap_assoc]
  rfl

theorem names_intersection (operands : List Expression) :
    (intersection operands).names = operands.flatMap names := by
  rw [names, uses, usesOfAll_eq, List.flatMap_assoc]
  rfl

end Expression

namespace Grammar

open Spelling (Mentions)

theorem mentions_expression (written : Expression) :
    Mentions (expression written) written.names := by
  refine .oneOf fun depth => ?_
  induction depth generalizing written with
  | zero => exact fun _ _ impossible => impossible.elim
  | succ depth induction =>
      exact mentions_operation '+' (Expression.names_flat Expression.names_union)
        (mentions_operation '&' (Expression.names_flat Expression.names_intersection)
          (mentions_operation '-' Expression.names_foldl_exclusion
            (mentions_operand induction))) written

theorem mentions_subject (written : Subject) : Mentions (subject written) written.names := by
  cases written with
  | object => exact .nothing _
  | everyone => exact .nothing _
  | relation name => exact .nothing_append _ (.name name)

theorem mentions_traits (written : List Name) : Mentions (traits written) written := by
  cases written with
  | nil => exact .nothing _
  | cons first more =>
      have names := Mentions.separated Mentions.name (gap ++ word "and" ++ gap) (first :: more)
      rw [List.flatMap_singleton'] at names
      exact names.nothing_append _

theorem mentions_subjectType (written : SubjectType) :
    Mentions (subjectType written) written.names :=
  ((Mentions.name written.type).append (mentions_subject written.subject)).append
    (mentions_traits written.traits)

theorem mentions_member (written : Member) : Mentions (member written) written.names := by
  cases written with
  | relation name types =>
      exact (((Mentions.name name).nothing_append _).append_nothing _).append
        (.separated mentions_subjectType _ types)
  | permission name permitted =>
      exact (((Mentions.name name).nothing_append _).append_nothing _).append
        (mentions_expression permitted)

theorem mentions_item (written : Item) : Mentions (item written) written.names := by
  cases written with
  | feature name => exact (Mentions.name name).nothing_append _
  | caveat declared =>
      exact ((Mentions.name declared.name).nothing_append _).append_nothing _
        |>.append_nothing _ |>.append_nothing _ |>.append_nothing _ |>.append_nothing _
        |>.append_nothing _ |>.append_nothing _ |>.append_nothing _
  | definition declared =>
      have members := Mentions.each (fun entry => (mentions_member entry).append_nothing trivia)
        declared.members
      exact ((((Mentions.name declared.name).nothing_append _).append_nothing _).append
        members).append_nothing _

theorem mentions_items (written : List Item) : Mentions (items written) (namesOf written) :=
  .nothing_append _ (.each (fun entry => (mentions_item entry).append_nothing trivia) written)

end Grammar

theorem mentioning_of_parse {schema : String} {read : List Item} (equal : parse schema = .ok read) :
    Spelling.mentioning (namesOf read) 0 schema.toList := by
  have mentions := (Grammar.mentions_items read).append_nothing (.language Grammar.IsOpenComment)
  rcases parse_eq_ok_iff.mp equal with ⟨_, done⟩
  exact mentions (of_done_items done).1

theorem name_of_parse {schema : String} {read : List Item} (equal : parse schema = .ok read)
    {name : Name} (member : name ∈ namesOf read) :
    ∃ before rest, schema.toList = before ++ (name.text.toList ++ rest) ∧
      name.offset = byteLength before := by
  rcases Spelling.exists_of_mentioning (mentioning_of_parse equal) member with
    ⟨before, rest, text, place, _⟩
  exact ⟨before, rest, text, by rw [place, Nat.zero_add]⟩

end PermissionTypes.Schema
