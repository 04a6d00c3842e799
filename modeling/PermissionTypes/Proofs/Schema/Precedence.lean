import PermissionTypes.Proofs.Schema.ExpressionReading
import PermissionTypes.Proofs.Schema.MovedSpelling

/-! Operators of different kinds in one row. A row of operands is read as a union of intersections
of exclusions, whatever operators stand between them and however many operands there are. -/

namespace PermissionTypes.Schema

open Schema.Parser
open Text (byteLength)
open Trivia (isBlank Absent)
open Grammar (IsTrivia IsOpenComment)

namespace Expression

/-! ## Rows of operands -/

inductive Operator where
  | union
  | intersection
  | exclusion
  deriving DecidableEq, Repr

def Operator.sign : Operator → Char
  | .union => '+'
  | .intersection => '&'
  | .exclusion => '-'

structure Row where
  first : Expression
  more : List (Operator × Expression)

namespace Row

def operands (row : Row) : List Expression :=
  row.first :: row.more.map (·.2)

def operators (row : Row) : List Operator :=
  row.more.map (·.1)

def behind (operator : Operator) (row : Row) : List (Operator × Expression) :=
  (operator, row.first) :: row.more

def prepend (first : Expression) (operator : Operator) (row : Row) : Row where
  first := first
  more := row.behind operator

def cutFrom (operator : Operator) (first : Expression) :
    List (Operator × Expression) → List Row
  | [] => [⟨first, []⟩]
  | (found, next) :: more =>
      if found = operator then ⟨first, []⟩ :: cutFrom operator next more
      else (cutFrom operator next more).modifyHead (prepend first found)

/-- The parts of a row between the places of an operator. -/
def cut (operator : Operator) (row : Row) : List Row :=
  cutFrom operator row.first row.more

/-! ### Their expressions -/

def group (combine : List Expression → Expression) : List Expression → Expression
  | [single] => single
  | several => combine several

/-- The first operand, from which the others are taken away one after another. -/
def exclusion (row : Row) : Expression :=
  (row.more.map (·.2)).foldl .exclusion row.first

def intersection (row : Row) : Expression :=
  group .intersection ((row.cut .intersection).map exclusion)

def union (row : Row) : Expression :=
  group .union ((row.cut .union).map intersection)

/-! ### Cutting -/

theorem cutFrom_eq_cons (operator : Operator) (first : Expression)
    (more : List (Operator × Expression)) :
    ∃ part parts, cutFrom operator first more = part :: parts := by
  induction more generalizing first with
  | nil => exact ⟨_, _, rfl⟩
  | cons link more induction =>
      rw [cutFrom]
      split
      · exact ⟨_, _, rfl⟩
      · rcases induction link.2 with ⟨part, parts, equal⟩
        exact ⟨prepend first link.1 part, parts, by rw [equal, List.modifyHead_cons]⟩

theorem cut_eq_cons (operator : Operator) (row : Row) :
    ∃ part parts, row.cut operator = part :: parts :=
  cutFrom_eq_cons operator row.first row.more

/-- An operand in front of a row is a part of its own, or it joins the first part. -/
theorem cut_induction (operator : Operator) {motive : Row → List Row → Prop}
    (single : ∀ first, motive ⟨first, []⟩ [⟨first, []⟩])
    (cuts : ∀ first row part parts, motive row (part :: parts) →
      motive (prepend first operator row) (⟨first, []⟩ :: part :: parts))
    (joins : ∀ first found row part parts, found ≠ operator → motive row (part :: parts) →
      motive (prepend first found row) (prepend first found part :: parts))
    (row : Row) : motive row (row.cut operator) := by
  rcases row with ⟨first, more⟩
  induction more generalizing first with
  | nil => exact single first
  | cons link more induction =>
      rcases link with ⟨found, next⟩
      have rest := induction next
      rcases cut_eq_cons operator ⟨next, more⟩ with ⟨part, parts, equal⟩
      rw [equal] at rest
      rw [cut] at equal ⊢
      rw [cutFrom, equal]
      split
      · rename_i same
        subst same
        exact cuts first _ part parts rest
      · rename_i other
        exact joins first found _ part parts other rest

/-- The parts are the row, cut at all places of an operator. One more operator in front makes the
first part look like the others. -/
structure IsCut (operator : Operator) (row : Row) (parts : List Row) : Prop where
  whole : parts.flatMap (behind operator) = row.behind operator
  without : ∀ part ∈ parts, operator ∉ part.operators

theorem isCut_cut (operator : Operator) (row : Row) : IsCut operator row (row.cut operator) := by
  refine cut_induction operator (motive := IsCut operator) ?_ ?_ ?_ row
  · intro first
    exact ⟨rfl, by simp [operators]⟩
  · intro first row part parts isCut
    refine ⟨?_, List.forall_mem_cons.mpr ⟨by simp [operators], isCut.without⟩⟩
    rw [List.flatMap_cons, isCut.whole]
    rfl
  · intro first found row part parts other isCut
    rcases List.forall_mem_cons.mp isCut.without with ⟨here, more⟩
    refine ⟨?_, List.forall_mem_cons.mpr ⟨?_, more⟩⟩
    · have whole := isCut.whole
      simp only [List.flatMap_cons, behind, List.cons_append, List.cons.injEq, Prod.mk.injEq,
        true_and] at whole
      simp [prepend, behind, whole]
    · simpa [operators, prepend, behind, Ne.symm other] using here

namespace IsCut

variable {operator : Operator} {row : Row} {parts : List Row}

theorem takeWhile_flatMap_behind (operator : Operator) (parts : List Row) :
    (parts.flatMap (behind operator)).takeWhile (fun link => link.1 ≠ operator) = [] := by
  cases parts with
  | nil => rfl
  | cons part parts => simp [behind]

theorem takeWhile_more {part : Row} (without : operator ∉ part.operators) (parts : List Row) :
    (part.more ++ parts.flatMap (behind operator)).takeWhile (fun link => link.1 ≠ operator) =
      part.more := by
  rw [List.takeWhile_append_of_pos, takeWhile_flatMap_behind, List.append_nil]
  intro link member
  rw [decide_eq_true_iff]
  rintro rfl
  exact without (List.mem_map_of_mem member)

/-- The first part goes on up to the next place of the operator. -/
theorem head_eq {part other : Row} {parts others : List Row} (without : operator ∉ part.operators)
    (otherWithout : operator ∉ other.operators)
    (same : (part :: parts).flatMap (behind operator) =
      (other :: others).flatMap (behind operator)) :
    part = other ∧ parts.flatMap (behind operator) = others.flatMap (behind operator) := by
  rw [List.flatMap_cons, List.flatMap_cons, behind, behind, List.cons_append,
    List.cons_append] at same
  injection same with sameFirst sameRest
  have moreEqual : part.more = other.more := by
    rw [← takeWhile_more without parts, sameRest, takeWhile_more otherWithout others]
  rw [moreEqual] at sameRest
  refine ⟨?_, List.append_cancel_left sameRest⟩
  cases part
  cases other
  injection sameFirst with _ firstEqual
  rw [Row.mk.injEq]
  exact ⟨firstEqual, moreEqual⟩

theorem eq_of_flatMap_behind {parts others : List Row}
    (without : ∀ part ∈ parts, operator ∉ part.operators)
    (otherWithout : ∀ other ∈ others, operator ∉ other.operators)
    (same : parts.flatMap (behind operator) = others.flatMap (behind operator)) :
    parts = others := by
  induction parts generalizing others with
  | nil =>
      cases others with
      | nil => rfl
      | cons other others => cases same
  | cons part parts induction =>
      cases others with
      | nil => cases same
      | cons other others =>
          rcases List.forall_mem_cons.mp without with ⟨here, more⟩
          rcases List.forall_mem_cons.mp otherWithout with ⟨otherHere, otherMore⟩
          rcases head_eq here otherHere same with ⟨rfl, sameMore⟩
          rw [induction more otherMore sameMore]

theorem unique {others : List Row} (isCut : IsCut operator row parts)
    (otherIsCut : IsCut operator row others) : parts = others :=
  eq_of_flatMap_behind isCut.without otherIsCut.without
    (isCut.whole.trans otherIsCut.whole.symm)

theorem operands_eq (isCut : IsCut operator row parts) :
    parts.flatMap operands = row.operands := by
  have whole := congrArg (List.map (·.2)) isCut.whole
  rwa [List.map_flatMap] at whole

theorem operator_mem (isCut : IsCut operator row parts) {part : Row} (member : part ∈ parts)
    {found : Operator} (occurs : found ∈ part.operators) : found ∈ row.operators := by
  rcases List.mem_map.mp occurs with ⟨link, linkMember, rfl⟩
  have inWhole : link ∈ row.behind operator := by
    rw [← isCut.whole]
    exact List.mem_flatMap.mpr ⟨part, member, List.mem_cons_of_mem _ linkMember⟩
  rcases List.mem_cons.mp inWhole with rfl | inRow
  · exact absurd occurs (isCut.without part member)
  · exact List.mem_map_of_mem inRow

theorem operand_mem (isCut : IsCut operator row parts) {part : Row} (member : part ∈ parts)
    {operand : Expression} (occurs : operand ∈ part.operands) : operand ∈ row.operands := by
  rw [← isCut.operands_eq]
  exact List.mem_flatMap.mpr ⟨part, member, occurs⟩

end IsCut

theorem isCut_iff {operator : Operator} {row : Row} {parts : List Row} :
    IsCut operator row parts ↔ parts = row.cut operator := by
  constructor
  · exact fun isCut => isCut.unique (isCut_cut operator row)
  · rintro rfl
    exact isCut_cut operator row

/-- What is left between unions and intersections are exclusions. -/
theorem operator_eq_exclusion {row part run : Row} (isPart : part ∈ row.cut .union)
    (isRun : run ∈ part.cut .intersection) :
    ∀ operator ∈ run.operators, operator = .exclusion := by
  intro operator member
  have inPart := (isCut_cut .intersection part).operator_mem isRun member
  cases operator with
  | union => exact absurd inPart ((isCut_cut .union row).without part isPart)
  | intersection => exact absurd member ((isCut_cut .intersection part).without run isRun)
  | exclusion => rfl

/-! ### Shapes -/

theorem wellShaped_exclusion {row : Row} (shaped : ∀ operand ∈ row.operands, operand.WellShaped) :
    row.exclusion.WellShaped :=
  (wellShaped_foldl_exclusion_iff row.first _).mpr (List.forall_mem_cons.mp shaped)

theorem group_cons (combine : List Expression → Expression) (first : Expression)
    (more : List Expression) : group combine (first :: more) = flat combine first more := by
  cases more <;> rfl

theorem wellShaped_group {combine : List Expression → Expression}
    (shapes : ∀ operands, (combine operands).WellShaped ↔
      2 ≤ operands.length ∧ ∀ operand ∈ operands, operand.WellShaped)
    {operator : Operator} {value : Row → Expression}
    (shaped : ∀ {row : Row}, (∀ operand ∈ row.operands, operand.WellShaped) →
      (value row).WellShaped)
    {row : Row} (operandsShaped : ∀ operand ∈ row.operands, operand.WellShaped) :
    (group combine ((row.cut operator).map value)).WellShaped := by
  have each : ∀ part ∈ row.cut operator, (value part).WellShaped := fun part member =>
    shaped fun operand occurs =>
      operandsShaped operand ((isCut_cut operator row).operand_mem member occurs)
  rcases cut_eq_cons operator row with ⟨part, parts, equal⟩
  rw [equal] at each ⊢
  rw [List.map_cons, group_cons, wellShaped_flat_iff shapes, List.forall_mem_map]
  exact List.forall_mem_cons.mp each

theorem wellShaped_intersection {row : Row}
    (shaped : ∀ operand ∈ row.operands, operand.WellShaped) : row.intersection.WellShaped :=
  wellShaped_group wellShaped_intersection_iff wellShaped_exclusion shaped

theorem wellShaped_union {row : Row} (shaped : ∀ operand ∈ row.operands, operand.WellShaped) :
    row.union.WellShaped :=
  wellShaped_group wellShaped_union_iff wellShaped_intersection shaped

end Row

/-! ## Spellings of rows -/

theorem spells_each_map {spelling : α → Spelling} {other : β → Spelling} {change : α → β}
    {values : List α}
    (changes : ∀ value ∈ values, ∀ {start stop : Cursor}, start.Spells (spelling value) stop →
      start.Spells (other (change value)) stop)
    {start stop : Cursor} (spells : start.Spells (.each spelling values) stop) :
    start.Spells (.each other (values.map change)) stop := by
  induction values generalizing start with
  | nil => exact spells
  | cons value values induction =>
      rcases List.forall_mem_cons.mp changes with ⟨changesHere, changesMore⟩
      rcases Cursor.spells_append_iff.mp spells with ⟨middle, first, more⟩
      exact (changesHere first).append (induction changesMore more)

namespace Row

def spelling (operand : Expression → Spelling) (row : Row) : Spelling :=
  operand row.first ++
    .each (fun link => Grammar.between link.1.sign ++ operand link.2) row.more

variable {operand : Expression → Spelling} {start stop : Cursor}

theorem spells_prepend_iff {first : Expression} {operator : Operator} {row : Row} :
    start.Spells ((prepend first operator row).spelling operand) stop ↔
      ∃ middle, start.Spells (operand first) middle ∧
        middle.Spells (Grammar.between operator.sign ++ row.spelling operand) stop := by
  simp only [spelling, prepend, behind, Spelling.each, Cursor.spells_append_iff]
  constructor
  · rintro ⟨middle, firstSpells, _, ⟨_, between, next⟩, more⟩
    exact ⟨middle, firstSpells, _, between, _, next, more⟩
  · rintro ⟨middle, firstSpells, _, between, _, next, more⟩
    exact ⟨middle, firstSpells, _, ⟨_, between, next⟩, more⟩

theorem spells_cut (operator : Operator) {row : Row}
    (spells : start.Spells (row.spelling operand) stop) :
    start.Spells (.separated (Grammar.between operator.sign) (spelling operand)
      (row.cut operator)) stop := by
  revert start
  refine cut_induction operator (motive := fun row parts => ∀ {start : Cursor},
    start.Spells (row.spelling operand) stop →
      start.Spells (.separated (Grammar.between operator.sign) (spelling operand) parts) stop)
    ?_ ?_ ?_ row
  · intro first start spells
    exact spells.append (Cursor.spells_exactly_nil_iff.mpr rfl)
  · intro first row part parts separated start spells
    rcases spells_prepend_iff.mp spells with ⟨middle, firstSpells, spells⟩
    rcases Cursor.spells_append_iff.mp spells with ⟨last, between, rowSpells⟩
    rcases Cursor.spells_append_iff.mp (separated rowSpells) with ⟨_, partSpells, more⟩
    have single : start.Spells (spelling operand ⟨first, []⟩) middle :=
      firstSpells.append (Cursor.spells_exactly_nil_iff.mpr rfl)
    exact single.append ((between.append partSpells).append more)
  · intro first found row part parts _ separated start spells
    rcases spells_prepend_iff.mp spells with ⟨middle, firstSpells, spells⟩
    rcases Cursor.spells_append_iff.mp spells with ⟨last, between, rowSpells⟩
    rcases Cursor.spells_append_iff.mp (separated rowSpells) with ⟨_, partSpells, more⟩
    exact (spells_prepend_iff.mpr ⟨middle, firstSpells, between.append partSpells⟩).append more

theorem spells_exclusion {row : Row} (only : ∀ operator ∈ row.operators, operator = .exclusion)
    (spells : start.Spells (row.spelling operand) stop) :
    start.Spells (Grammar.exclusions operand row.exclusion) stop := by
  rcases Cursor.spells_append_iff.mp spells with ⟨middle, first, more⟩
  refine spells_operation_iff.mpr ⟨row.first, row.more.map (·.2), middle, rfl, first, ?_⟩
  refine spells_each_map (fun link member => ?_) more
  rw [only link.1 (List.mem_map_of_mem member)]
  exact id

/-- If the parts of a row are spelled as operands of an operator, the row is spelled as its
operation. -/
theorem spells_group {operator : Operator} {inner : Expression → Spelling}
    {value : Row → Expression} (combine : List Expression → Expression) {row : Row}
    (each : ∀ part ∈ row.cut operator, ∀ {start stop : Cursor},
      start.Spells (part.spelling operand) stop → start.Spells (inner (value part)) stop)
    (spells : start.Spells (row.spelling operand) stop) :
    start.Spells (Grammar.operation operator.sign (flat combine) inner
      (group combine ((row.cut operator).map value))) stop := by
  have separated := spells_cut operator spells
  rcases cut_eq_cons operator row with ⟨part, parts, equal⟩
  rw [equal] at each separated ⊢
  rcases List.forall_mem_cons.mp each with ⟨eachFirst, eachMore⟩
  rcases Cursor.spells_append_iff.mp separated with ⟨middle, first, more⟩
  refine spells_operation_iff.mpr ⟨value part, parts.map value, middle,
    group_cons combine _ _, eachFirst first, ?_⟩
  refine spells_each_map (fun part member _ _ spells => ?_) more
  rcases Cursor.spells_append_iff.mp spells with ⟨_, between, partSpells⟩
  exact between.append (eachMore part member partSpells)

theorem spells_union {row : Row} (spells : start.Spells (row.spelling operand) stop) :
    start.Spells (Grammar.unions operand row.union) stop := by
  refine spells_group .union (fun part isPart _ _ partSpells => ?_) spells
  refine spells_group .intersection (fun run isRun _ _ runSpells => ?_) partSpells
  exact spells_exclusion (operator_eq_exclusion isPart isRun) runSpells

theorem run_expression {row : Row} (shaped : ∀ operand ∈ row.operands, operand.WellShaped)
    (spells : start.Spells (row.spelling (Grammar.operand Grammar.expression)) stop)
    (ahead : NothingAhead ['+', '&', '-'] stop) :
    expression.run start = .done row.union stop := by
  have complete : CompleteBefore ['+', '&', '-'] (unions (Expression.operand expression))
      (Grammar.unions (Grammar.operand Grammar.expression)) :=
    complete_unions (complete_operand fun _ _ _ shaped spells faces =>
      run_expression_of_spells shaped spells faces)
  rw [Schema.run_expression]
  exact (complete (wellShaped_union shaped) (spells_union spells) ahead).1

end Row

/-! ## Texts of rows -/

structure OperandText where
  text : List Char
  value : Expression
  read : (operand expression).run (.ofText text) = .done value ⟨byteLength text, []⟩

namespace OperandText

variable (written : OperandText)

theorem sound : written.value.WellShaped ∧
    Grammar.operand Grammar.expression written.value 0 written.text := by
  have sound : Sound (operand expression) (Grammar.operand Grammar.expression) :=
    sound_operand fun _ _ _ equal => of_done_expression equal
  rcases sound written.read with ⟨shaped, ⟨text, reads, _, spelled⟩, _⟩
  have same : written.text = text := reads.rest_eq.trans (List.append_nil text)
  rw [same]
  exact ⟨shaped, spelled⟩

/-- Behind other text the names of the operand have other places. -/
theorem spells {start stop : Cursor} (reads : start.Reads written.text stop)
    (ends : ∀ next ∈ stop.rest.head?, isWordCharacter next = false) :
    start.Spells (Grammar.operand Grammar.expression (written.value.moved start.offset)) stop := by
  refine ⟨written.text, reads, .of_head ends, ?_⟩
  have moves : Grammar.Moves start.offset (Grammar.operand Grammar.expression) :=
    Grammar.moves_expression.operand
  have moved := moves written.value written.sound.2
  rwa [Nat.zero_add] at moved

end OperandText

structure Link where
  before : List Char
  operator : Operator
  behind : List Char
  operand : OperandText
  beforeTrivia : IsTrivia before
  behindTrivia : IsTrivia behind

namespace Link

def lead (link : Link) : List Char :=
  link.before ++ [link.operator.sign] ++ link.behind

def text (link : Link) : List Char :=
  link.lead ++ link.operand.text

def placed : Nat → List Link → List (Operator × Expression)
  | _, [] => []
  | offset, link :: links =>
      (link.operator, link.operand.value.moved (offset + byteLength link.lead)) ::
        placed (offset + byteLength link.text) links

theorem shaped_placed (offset : Nat) (links : List Link) :
    ∀ placedLink ∈ placed offset links, placedLink.2.WellShaped := by
  induction links generalizing offset with
  | nil => exact List.forall_mem_nil _
  | cons link links induction =>
      exact List.forall_mem_cons.mpr ⟨link.operand.sound.1.moved _, induction _⟩

theorem not_isWordCharacter_head (link : Link) (rest : List Char) :
    ∀ next ∈ (link.text ++ rest).head?, isWordCharacter next = false := by
  intro next member
  rw [text, lead, List.append_assoc, List.append_assoc, List.append_assoc] at member
  rcases Trivia.head_of_isTrivia_append link.beforeTrivia _ next member with blank | rfl | sign
  · exact Trivia.isWordCharacter_of_isBlank blank
  · rfl
  · cases sign
    cases link.operator <;> rfl

theorem spells_lead {link : Link} {start stop : Cursor} (reads : start.Reads link.lead stop) :
    start.Spells (Grammar.between link.operator.sign) stop := by
  simp only [lead, Cursor.reads_append_iff] at reads
  rcases reads with ⟨_, ⟨_, before, sign⟩, behind⟩
  have signSpells := sign.spells (by cases link.operator <;> rfl)
  exact ((spells_trivia_iff.mpr ⟨_, before, link.beforeTrivia⟩).append signSpells).append
    (spells_trivia_iff.mpr ⟨_, behind, link.behindTrivia⟩)

theorem spells_placed {links : List Link} {start stop : Cursor}
    (reads : start.Reads (links.flatMap text) stop)
    (ends : ∀ next ∈ stop.rest.head?, isWordCharacter next = false) :
    start.Spells (.each (fun link => Grammar.between link.1.sign ++
      Grammar.operand Grammar.expression link.2) (placed start.offset links)) stop ∧
      ∀ next ∈ start.rest.head?, isWordCharacter next = false := by
  induction links generalizing start with
  | nil =>
      obtain rfl := Cursor.reads_nil_iff.mp reads
      exact ⟨Cursor.spells_exactly_nil_iff.mpr rfl, ends⟩
  | cons link links induction =>
      have startRest := reads.rest_eq
      rw [List.flatMap_cons, Cursor.reads_append_iff] at reads
      rcases reads with ⟨middle, linkReads, moreReads⟩
      rcases induction moreReads with ⟨moreSpells, endsOperand⟩
      have middleOffset := linkReads.offset_eq
      rcases Cursor.reads_append_iff.mp linkReads with ⟨last, leadReads, operandReads⟩
      have operandSpells := link.operand.spells operandReads endsOperand
      rw [leadReads.offset_eq] at operandSpells
      rw [middleOffset] at moreSpells
      -- The operand before the link ends where this head is.
      refine ⟨((spells_lead leadReads).append operandSpells).append moreSpells, ?_⟩
      rw [startRest, List.flatMap_cons, List.append_assoc]
      exact link.not_isWordCharacter_head _

end Link

structure RowText where
  first : OperandText
  more : List Link

namespace RowText

def text (written : RowText) : List Char :=
  written.first.text ++ written.more.flatMap Link.text

def row (written : RowText) (offset : Nat) : Row where
  first := written.first.value.moved offset
  more := Link.placed (offset + byteLength written.first.text) written.more

theorem shaped (written : RowText) (offset : Nat) :
    ∀ operand ∈ (written.row offset).operands, operand.WellShaped := by
  refine List.forall_mem_cons.mpr ⟨written.first.sound.1.moved offset, ?_⟩
  exact List.forall_mem_map.mpr (Link.shaped_placed _ _)

theorem spells (written : RowText) {start stop : Cursor} (reads : start.Reads written.text stop)
    (ends : ∀ next ∈ stop.rest.head?, isWordCharacter next = false) :
    start.Spells
      ((written.row start.offset).spelling (Grammar.operand Grammar.expression)) stop := by
  rcases Cursor.reads_append_iff.mp reads with ⟨middle, firstReads, moreReads⟩
  rcases Link.spells_placed moreReads ends with ⟨moreSpells, endsFirst⟩
  rw [firstReads.offset_eq] at moreSpells
  exact (written.first.spells firstReads endsFirst).append moreSpells

end RowText

/-! ### What follows -/

/-- Trivia, and then a closing brace, a closing parenthesis or the end of the text. -/
def EndsRow (tail : List Char) : Prop :=
  ∃ skipped rest, tail = skipped ++ rest ∧ IsTrivia skipped ∧
    (IsOpenComment rest ∨ rest.head? = some '}' ∨ rest.head? = some ')')

namespace EndsRow

theorem eq_cons_of_closes {rest : List Char}
    (closes : rest.head? = some '}' ∨ rest.head? = some ')') :
    ∃ closing more, rest = closing :: more ∧ (closing = '}' ∨ closing = ')') := by
  rcases closes with brace | parenthesis
  · rcases List.head?_eq_some_iff.mp brace with ⟨more, equal⟩
    exact ⟨'}', more, equal, .inl rfl⟩
  · rcases List.head?_eq_some_iff.mp parenthesis with ⟨more, equal⟩
    exact ⟨')', more, equal, .inr rfl⟩

theorem head {tail : List Char} (ends : EndsRow tail) :
    ∀ next ∈ tail.head?, isWordCharacter next = false ∧ next ≠ '.' := by
  rcases ends with ⟨skipped, rest, rfl, isTrivia, closes⟩
  intro next member
  rcases Trivia.head_of_isTrivia_append isTrivia rest next member with blank | rfl | behind
  · refine ⟨Trivia.isWordCharacter_of_isBlank blank, ?_⟩
    rintro rfl
    cases blank
  · decide
  · rcases closes with (rfl | ⟨comment, _, rfl⟩) | closes
    · cases behind
    · cases behind
      decide
    · rcases eq_cons_of_closes closes with ⟨closing, more, rfl, isClosing⟩
      cases behind
      rcases isClosing with rfl | rfl <;> decide

theorem run_trivia {stop : Cursor} (ends : EndsRow stop.rest) :
    ∃ next, trivia.run stop = .done () next ∧
      ∀ found ∈ next.rest.head?, found = '}' ∨ found = ')' := by
  rcases ends with ⟨skipped, rest, equal, isTrivia, closes⟩
  have front : stop.Spells Grammar.trivia (stop.advance skipped rest) :=
    spells_trivia_iff.mpr ⟨skipped, Cursor.reads_advance equal, isTrivia⟩
  rcases closes with isOpen | closes
  · have reads : (stop.advance skipped rest).Reads rest _ :=
      Cursor.reads_advance (List.append_nil rest).symm
    have atEnd := run_trivia_at_end front ⟨rest, reads, .nil_right _, isOpen⟩ rfl
    exact ⟨_, atEnd, fun found member => nomatch member⟩
  · rcases eq_cons_of_closes closes with ⟨closing, more, rfl, isClosing⟩
    have solid : isBlank closing = false ∧ closing ≠ '/' := by
      rcases isClosing with rfl | rfl <;> decide
    refine ⟨_, Schema.run_trivia front (.of_head solid.1 solid.2), ?_⟩
    rintro found ⟨rfl⟩
    exact isClosing

theorem nothingAhead {stop : Cursor} (ends : EndsRow stop.rest) :
    NothingAhead ['+', '&', '-'] stop := by
  rcases ends.run_trivia with ⟨next, triviaEqual, closes⟩
  have noSign : NotAmong ['+', '&', '-'] next.rest := by
    intro found member
    rcases closes found member with rfl | rfl <;> decide
  have noArrow : (exactly ['-', '>']).Rejects next := by
    apply rejects_exactly_iff.mpr
    rintro ⟨more, arrow⟩
    rw [← arrow] at noSign
    exact noSign '-' rfl (by simp)
  have noDot : (character '.').Rejects stop :=
    rejects_character_iff.mpr fun found member => (ends.head found member).2
  exact ⟨.orElse (.bind_right triviaEqual (noArrow.bind_left _)) (noDot.bind_left _),
    next, triviaEqual, noSign⟩

end EndsRow

/-! ## Precedence -/

/-- A row of operands is read up to its end, whatever operators are in it. The union is made of the
parts between the signs of unions, each of them an intersection of the parts between the signs of
intersections, where only exclusions are left. There is one way to cut a row into such parts, and
they keep its operands in order. -/
theorem run_row (written : RowText) (offset : Nat) {tail : List Char} (ends : EndsRow tail) :
    expression.run ⟨offset, written.text ++ tail⟩ =
      .done (written.row offset).union ⟨offset + byteLength written.text, tail⟩ ∧
    (∀ operator row parts, Row.IsCut operator row parts ↔ parts = row.cut operator) ∧
    (∀ part ∈ (written.row offset).cut .union, ∀ run ∈ part.cut .intersection,
      ∀ operator ∈ run.operators, operator = .exclusion) ∧
    ((written.row offset).cut .union).flatMap
      (fun part => (part.cut .intersection).flatMap Row.operands) =
        (written.row offset).operands := by
  refine ⟨?_, fun _ _ _ => Row.isCut_iff, fun _ isPart _ => Row.operator_eq_exclusion isPart, ?_⟩
  · have reads : Cursor.Reads ⟨offset, written.text ++ tail⟩ written.text
        ⟨offset + byteLength written.text, tail⟩ := ⟨rfl, rfl⟩
    have spells := written.spells reads fun next member => (ends.head next member).1
    exact Row.run_expression (written.shaped offset) spells ends.nothingAhead
  · have eachPart := fun part : Row => (Row.isCut_cut .intersection part).operands_eq
    simp only [eachPart]
    exact (Row.isCut_cut .union _).operands_eq

/-! ### A row with all operators -/

def operandGroup : OperandText where
  text := "(a + b)".toList
  value := .union [.member ⟨"a", 1⟩, .member ⟨"b", 5⟩]
  read := by with_unfolding_all rfl

def operandMember : OperandText where
  text := "c".toList
  value := .member ⟨"c", 0⟩
  read := by with_unfolding_all rfl

def operandWalk : OperandText where
  text := "d->e".toList
  value := .walk .each ⟨"d", 0⟩ ⟨"e", 3⟩
  read := by with_unfolding_all rfl

def operandNothing : OperandText where
  text := "nil".toList
  value := .nothing
  read := by with_unfolding_all rfl

theorem isTrivia_blank : IsTrivia [' '] :=
  .cons (.blank rfl) .nil

def mixedRow : RowText where
  first := operandGroup
  more := [
    ⟨[], .union, [' '], operandMember, .nil, isTrivia_blank⟩,
    ⟨[' '], .exclusion, [], operandWalk, isTrivia_blank, .nil⟩,
    ⟨[], .exclusion, [], operandMember, .nil, .nil⟩,
    ⟨[' '], .intersection, [' '], operandNothing, isTrivia_blank, isTrivia_blank⟩]

theorem run_row_mixed :
    EndsRow " \x7d".toList ∧
      expression.run ⟨10, "(a + b)+ c -d->e-c & nil \x7d".toList⟩ =
        .done (.union [.union [.member ⟨"a", 11⟩, .member ⟨"b", 15⟩],
          .intersection [
            .exclusion (.exclusion (.member ⟨"c", 19⟩) (.walk .each ⟨"d", 22⟩ ⟨"e", 25⟩))
              (.member ⟨"c", 27⟩),
            .nothing]]) ⟨34, " \x7d".toList⟩ :=
  have ends : EndsRow " \x7d".toList := ⟨[' '], ['}'], rfl, isTrivia_blank, .inr (.inl rfl)⟩
  ⟨ends, (run_row mixedRow 10 ends).1⟩

end Expression
end PermissionTypes.Schema
