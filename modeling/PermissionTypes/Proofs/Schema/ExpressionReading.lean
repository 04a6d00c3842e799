import PermissionTypes.Proofs.Schema.Lookahead
import PermissionTypes.Schema.Agreement

/-! Expressions are read exactly where the grammar spells them. Both directions are shown for one
level of operators first, given how its operands are read, and then for all levels. -/

namespace PermissionTypes.Schema

open Schema.Parser
open Trivia (isBlank Absent)
open Grammar (IsIdentifier)

namespace Expression

/-! ## What is shown -/

def Opens (rest : List Char) : Prop :=
  ∃ first more, rest = first :: more ∧ (isLetter first = true ∨ first = '(')

def Sound (parser : Parser Expression) (spelling : Expression → Spelling) : Prop :=
  ∀ ⦃expression start stop⦄, parser.run start = .done expression stop →
    expression.WellShaped ∧ start.Spells (spelling expression) stop ∧ Opens start.rest

/-- The parser reads what the grammar spells, if it cannot go on with what comes behind. -/
def Complete (parser : Parser Expression) (spelling : Expression → Spelling)
    (ends : List Char → Prop) : Prop :=
  ∀ ⦃expression start stop⦄, expression.WellShaped → start.Spells (spelling expression) stop →
    stop.Faces ends → parser.run start = .done expression stop ∧ Opens start.rest

/-- Neither a walk nor one of some signs comes next. Before a sign there can be trivia, whose last
comment the end of the text may close. -/
def NothingAhead (signs : List Char) (stop : Cursor) : Prop :=
  walkTarget.Rejects stop ∧ ∃ next, trivia.run stop = .done () next ∧ NotAmong signs next.rest

/-- The parser reads what the grammar spells, if neither a walk nor one of some signs follows. -/
def CompleteBefore (signs : List Char) (parser : Parser Expression)
    (spelling : Expression → Spelling) : Prop :=
  ∀ ⦃expression start stop⦄, expression.WellShaped → start.Spells (spelling expression) stop →
    NothingAhead signs stop → parser.run start = .done expression stop ∧ Opens start.rest

namespace Opens

theorem solid {rest : List Char} (opens : Opens rest) : Solid rest := by
  rcases opens with ⟨first, more, rfl, letter | rfl⟩
  · exact solid_of_letter letter
  · exact ⟨'(', more, rfl, rfl, by decide⟩

theorem notAmong {rest : List Char} (opens : Opens rest) : NotAmong ['>'] rest := by
  rcases opens with ⟨first, more, rfl, letter | rfl⟩
  · apply NotAmong.cons
    rw [List.mem_singleton]
    rintro rfl
    cases letter
  · exact .cons (by decide)

end Opens

/-! ## Walks -/

theorem done_quantifier_iff {arrow : Arrow} {start stop : Cursor} :
    quantifier.run start = .done arrow stop ↔
      arrow = .any ∧ start.Spells (Grammar.word "any") stop ∨
        arrow = .all ∧ start.Spells (Grammar.word "all") stop := by
  constructor
  · intro equal
    rcases done_orElse_iff.mp equal with equal | ⟨_, equal⟩
    · rcases done_bind_iff.mp equal with ⟨_, _, word, equal⟩
      rcases done_pure_iff.mp equal with ⟨rfl, rfl⟩
      exact .inl ⟨rfl, (done_keyword_iff rfl).mp word⟩
    · rcases done_bind_iff.mp equal with ⟨_, _, word, equal⟩
      rcases done_pure_iff.mp equal with ⟨rfl, rfl⟩
      exact .inr ⟨rfl, (done_keyword_iff rfl).mp word⟩
  · rintro (⟨rfl, word⟩ | ⟨rfl, word⟩)
    · exact done_orElse_iff.mpr (.inl (run_bind_of_done ((done_keyword_iff rfl).mpr word)))
    · have notAny : (keyword "any").Rejects start := by
        apply rejects_keyword
        rw [(Cursor.spells_exactly_iff.mp word).1.rest_eq]
        simp
      refine (run_orElse_of_rejects (notAny.bind_left _) _).trans ?_
      exact run_bind_of_done ((done_keyword_iff rfl).mpr word)

def targetInParentheses : Parser Name := do
  character '('
  trivia
  let target ← named identifier
  trivia
  character ')'
  pure target

theorem of_done_targetInParentheses {target : Name} {start stop : Cursor}
    (equal : targetInParentheses.run start = .done target stop) :
    IsIdentifier target.text.toList ∧
      start.Spells (Grammar.inParentheses (.name target)) stop := by
  rcases done_bind_iff.mp equal with ⟨_, _, opening, equal⟩
  rcases done_bind_iff.mp equal with ⟨_, _, front, equal⟩
  rcases done_bind_iff.mp equal with ⟨_, _, nameEqual, equal⟩
  rcases done_bind_iff.mp equal with ⟨_, _, back, equal⟩
  rcases done_bind_iff.mp equal with ⟨_, _, closing, equal⟩
  rcases done_pure_iff.mp equal with ⟨rfl, rfl⟩
  rcases done_named_identifier_iff.mp nameEqual with ⟨isIdentifier, name⟩
  have closingSpells := (done_character_iff_spells rfl).mp closing
  have nameSolid := solid_of_spells_name isIdentifier.head name
  have closingSolid := solid_of_spells_exactly closingSpells rfl (by decide)
  refine ⟨isIdentifier, ?_⟩
  exact ((((done_character_iff_spells rfl).mp opening).append
    (spells_of_done_trivia front nameSolid.ne_nil).1).append name).append
    (spells_of_done_trivia back closingSolid.ne_nil).1 |>.append closingSpells

theorem run_targetInParentheses {target : Name} {start stop : Cursor}
    (isIdentifier : IsIdentifier target.text.toList)
    (spells : start.Spells (Grammar.inParentheses (.name target)) stop) :
    targetInParentheses.run start = .done target stop := by
  simp only [Grammar.inParentheses, Cursor.spells_append_iff] at spells
  rcases spells with ⟨_, ⟨_, ⟨_, ⟨_, opening, front⟩, name⟩, back⟩, closing⟩
  have nameSolid := solid_of_spells_name isIdentifier.head name
  have closingSolid := solid_of_spells_exactly closing rfl (by decide)
  refine (run_bind_of_done ((done_character_iff_spells rfl).mpr opening)).trans ?_
  refine (run_bind_of_done (run_trivia front nameSolid.absent)).trans ?_
  refine (run_bind_of_done (done_named_identifier_iff.mpr ⟨isIdentifier, name⟩)).trans ?_
  refine (run_bind_of_done (run_trivia back closingSolid.absent)).trans ?_
  exact run_bind_of_done ((done_character_iff_spells rfl).mpr closing)

theorem of_done_walkTarget {arrow : Arrow} {target : Name} {start stop : Cursor}
    (equal : walkTarget.run start = .done (arrow, target) stop) :
    IsIdentifier target.text.toList ∧
      start.Spells (Grammar.walkTarget target arrow) stop := by
  rcases done_orElse_iff.mp equal with equal | ⟨_, equal⟩
  · rcases done_bind_iff.mp equal with ⟨_, _, front, equal⟩
    rcases done_bind_iff.mp equal with ⟨_, _, sign, equal⟩
    rcases done_bind_iff.mp equal with ⟨_, _, back, equal⟩
    rcases done_bind_iff.mp equal with ⟨_, _, nameEqual, equal⟩
    rcases done_pure_iff.mp equal with ⟨pair, rfl⟩
    cases pair
    rw [done_commit_iff] at nameEqual
    rcases done_named_identifier_iff.mp nameEqual with ⟨isIdentifier, name⟩
    have signSpells := (done_exactly_iff.mp sign).spells rfl
    have nameSolid := solid_of_spells_name isIdentifier.head name
    have signSolid := solid_of_spells_exactly signSpells rfl (by decide)
    refine ⟨isIdentifier, ?_⟩
    exact (((spells_of_done_trivia front signSolid.ne_nil).1.append signSpells).append
      (spells_of_done_trivia back nameSolid.ne_nil).1).append name
  · rcases done_bind_iff.mp equal with ⟨_, _, sign, equal⟩
    rcases done_bind_iff.mp equal with ⟨found, _, quantifierEqual, equal⟩
    rcases done_bind_iff.mp equal with ⟨_, _, targetEqual, equal⟩
    rcases done_pure_iff.mp equal with ⟨pair, rfl⟩
    cases pair
    rw [done_commit_iff] at targetEqual
    rcases of_done_targetInParentheses targetEqual with ⟨isIdentifier, spells⟩
    refine ⟨isIdentifier, ?_⟩
    have signSpells := (done_character_iff_spells rfl).mp sign
    rcases done_quantifier_iff.mp quantifierEqual with ⟨rfl, word⟩ | ⟨rfl, word⟩
    · exact (signSpells.append word).append spells
    · exact (signSpells.append word).append spells

theorem run_walkTarget {arrow : Arrow} {target : Name} {start stop : Cursor}
    (isIdentifier : IsIdentifier target.text.toList)
    (spells : start.Spells (Grammar.walkTarget target arrow) stop) :
    walkTarget.run start = .done (arrow, target) stop := by
  have nameEqual {start stop : Cursor} (name : start.Spells (.name target) stop) :
      (named identifier).run start = .done target stop :=
    done_named_identifier_iff.mpr ⟨isIdentifier, name⟩
  -- A quantifier needs the alternative of arrows to have been tried.
  have quantified {middle last : Cursor} (sign : start.Spells (Grammar.sign '.') middle)
      (word : quantifier.run middle = .done arrow last)
      (inside : last.Spells (Grammar.inParentheses (.name target)) stop) :
      walkTarget.run start = .done (arrow, target) stop := by
    have solid := solid_of_spells_exactly sign rfl (by decide)
    have noArrow : (exactly ['-', '>']).Rejects start := by
      apply rejects_exactly_iff.mpr
      rw [head_of_spells_sign sign]
      simp
    refine (run_orElse_of_rejects
      (Rejects.bind_right (run_trivia_of_absent solid.absent) (noArrow.bind_left _)) _).trans ?_
    refine (run_bind_of_done ((done_character_iff_spells rfl).mpr sign)).trans ?_
    refine (run_bind_of_done word).trans ?_
    exact run_bind_of_done (done_commit_iff.mpr (run_targetInParentheses isIdentifier inside))
  cases arrow with
  | each =>
      simp only [Grammar.walkTarget, Cursor.spells_append_iff] at spells
      rcases spells with ⟨_, ⟨_, ⟨_, front, sign⟩, back⟩, name⟩
      have nameSolid := solid_of_spells_name isIdentifier.head name
      have signSolid := solid_of_spells_exactly sign rfl (by decide)
      refine done_orElse_iff.mpr (.inl ?_)
      refine (run_bind_of_done (run_trivia front signSolid.absent)).trans ?_
      refine (run_bind_of_done (run_exactly (Cursor.spells_exactly_iff.mp sign).1)).trans ?_
      refine (run_bind_of_done (run_trivia back nameSolid.absent)).trans ?_
      exact run_bind_of_done (done_commit_iff.mpr (nameEqual name))
  | any =>
      simp only [Grammar.walkTarget, Cursor.spells_append_iff] at spells
      rcases spells with ⟨_, ⟨_, sign, word⟩, inside⟩
      exact quantified sign (done_quantifier_iff.mpr (.inl ⟨rfl, word⟩)) inside
  | all =>
      simp only [Grammar.walkTarget, Cursor.spells_append_iff] at spells
      rcases spells with ⟨_, ⟨_, sign, word⟩, inside⟩
      exact quantified sign (done_quantifier_iff.mpr (.inr ⟨rfl, word⟩)) inside

/-! ## Operands -/

/-- What can follow an operand: no walk. -/
def EndsOperand (rest : List Char) : Prop :=
  NotAmong ['.', '/'] rest ∧ ¬ ['-', '>'] <+: rest

theorem rejects_walkTarget {start : Cursor} (faces : start.Faces EndsOperand) :
    walkTarget.Rejects start := by
  have noDot : (character '.').Rejects start := by
    apply rejects_character_iff.mpr
    refine faces.head_ne (fun rest ends => ends.1.subset ?_) rfl (by decide)
    simp
  rcases faces with ⟨next, spells, absent, ends⟩
  refine Rejects.orElse ?_ (noDot.bind_left _)
  exact Rejects.bind_right (run_trivia spells absent)
    ((rejects_exactly_iff.mpr ends.2).bind_left _)

theorem of_done_memberOrWalk {expression : Expression} {start stop : Cursor}
    (notNil : (keyword "nil").Rejects start)
    (equal : memberOrWalk.run start = .done expression stop) :
    expression.WellShaped ∧ start.Spells (Grammar.simple expression) stop ∧
      Opens start.rest := by
  rcases done_bind_iff.mp equal with ⟨name, middle, nameEqual, equal⟩
  rcases done_bind_iff.mp equal with ⟨found, _, perhapsEqual, result⟩
  rcases done_named_identifier_iff.mp nameEqual with ⟨isIdentifier, nameSpells⟩
  have exactSpells := (Cursor.spells_name_iff.mp nameSpells).2
  have canBeRead : name.CanBeRead := by
    refine ⟨isIdentifier, fun isNil => ?_⟩
    rw [isNil] at exactSpells
    rcases notNil with ⟨failure, rejected⟩
    have done : (keyword "nil").run start = .done () middle :=
      (done_keyword_iff rfl).mpr exactSpells
    rw [done] at rejected
    cases rejected
  have opens : Opens start.rest := by
    rcases letter_of_spells isIdentifier.head exactSpells with ⟨first, more, rest, letter⟩
    exact ⟨first, more, rest, .inl letter⟩
  rcases done_perhaps_iff.mp perhapsEqual with
    ⟨⟨arrow, target⟩, rfl, targetEqual⟩ | ⟨rfl, _, rfl⟩
  · rcases done_pure_iff.mp result with ⟨rfl, rfl⟩
    rcases of_done_walkTarget targetEqual with ⟨targetIdentifier, targetSpells⟩
    exact ⟨.walk canBeRead targetIdentifier, nameSpells.append targetSpells, opens⟩
  · rcases done_pure_iff.mp result with ⟨rfl, rfl⟩
    exact ⟨.member canBeRead, nameSpells, opens⟩

theorem opens_of_spells_name {name : Name} {start stop : Cursor}
    (isIdentifier : IsIdentifier name.text.toList) (spells : start.Spells (.name name) stop) :
    Opens start.rest := by
  rcases letter_of_spells isIdentifier.head (Cursor.spells_name_iff.mp spells).2 with
    ⟨first, more, rest, letter⟩
  exact ⟨first, more, rest, .inl letter⟩

/-- A name that is not `nil` is not taken for the word. -/
theorem rejects_nil {name : Name} (canBeRead : name.CanBeRead) {start stop : Cursor}
    (spells : start.Spells (.name name) stop) : (keyword "nil").Rejects start := by
  apply rejects_keyword_of_not_done
  intro nilStop done
  have nilSpells := (done_keyword_iff rfl).mp done
  have nilIdentifier : IsIdentifier "nil".toList :=
    ⟨'n', ['i', 'l'], rfl, rfl, List.all_eq_true.mp rfl⟩
  have nilEqual : identifier.run start = .done "nil".toList nilStop :=
    done_identifier_iff.mpr ⟨nilIdentifier, nilSpells⟩
  have nameEqual : identifier.run start = .done name.text.toList stop :=
    done_identifier_iff.mpr ⟨canBeRead.1, (Cursor.spells_name_iff.mp spells).2⟩
  rw [nilEqual] at nameEqual
  injection nameEqual with textEqual
  exact canBeRead.2 (String.toList_inj.mp textEqual).symm

theorem run_member {name : Name} (isIdentifier : IsIdentifier name.text.toList)
    {start stop : Cursor} (spells : start.Spells (.name name) stop)
    (noWalk : walkTarget.Rejects stop) : memberOrWalk.run start = .done (.member name) stop := by
  refine (run_bind_of_done (done_named_identifier_iff.mpr ⟨isIdentifier, spells⟩)).trans ?_
  exact run_bind_of_done (done_perhaps_iff.mpr (.inr ⟨rfl, noWalk, rfl⟩))

theorem run_walk {arrow : Arrow} {relation target : Name}
    (relationIdentifier : IsIdentifier relation.text.toList)
    (targetIdentifier : IsIdentifier target.text.toList) {start stop : Cursor}
    (spells : start.Spells (.name relation ++ Grammar.walkTarget target arrow) stop) :
    memberOrWalk.run start = .done (.walk arrow relation target) stop := by
  rcases Cursor.spells_append_iff.mp spells with ⟨middle, relationSpells, targetSpells⟩
  refine (run_bind_of_done
    (done_named_identifier_iff.mpr ⟨relationIdentifier, relationSpells⟩)).trans ?_
  have walks : (perhaps walkTarget).run middle = .done (some (arrow, target)) stop :=
    done_perhaps_iff.mpr (.inl ⟨_, rfl, run_walkTarget targetIdentifier targetSpells⟩)
  exact run_bind_of_done walks

theorem sound_operand {inner : Parser Expression} {spelling : Expression → Spelling}
    (sound : Sound inner spelling) : Sound (operand inner) (Grammar.operand spelling) := by
  intro expression start stop equal
  rcases done_orElse_iff.mp (done_within_iff.mp equal) with equal | ⟨noNil, equal⟩
  · rcases done_bind_iff.mp equal with ⟨_, _, word, result⟩
    rcases done_pure_iff.mp result with ⟨rfl, rfl⟩
    have spells := (done_keyword_iff rfl).mp word
    exact ⟨.nothing, Cursor.spells_either_iff.mpr (.inl spells),
      'n', _, head_of_spells_exactly spells, .inl rfl⟩
  rcases done_orElse_iff.mp equal with equal | ⟨_, equal⟩
  · rcases done_bind_iff.mp equal with ⟨_, _, opening, equal⟩
    rcases done_bind_iff.mp equal with ⟨_, _, front, equal⟩
    rcases done_bind_iff.mp equal with ⟨found, _, innerEqual, equal⟩
    rcases done_bind_iff.mp equal with ⟨_, foundStop, closed, result⟩
    rcases done_pure_iff.mp result with ⟨rfl, rfl⟩
    rcases done_bind_iff.mp (done_commit_iff.mp closed) with ⟨_, _, back, closing⟩
    rcases sound (done_commit_iff.mp innerEqual) with ⟨shaped, innerSpells, innerOpens⟩
    have openingSpells := (done_character_iff_spells rfl).mp opening
    have closingSpells := (done_character_iff_spells rfl).mp closing
    have closingSolid := solid_of_spells_exactly closingSpells rfl (by decide)
    have spells : start.Spells (Grammar.inParentheses (spelling found)) foundStop :=
      (((openingSpells.append (spells_of_done_trivia front innerOpens.solid.ne_nil).1).append
        innerSpells).append (spells_of_done_trivia back closingSolid.ne_nil).1).append
        closingSpells
    exact ⟨shaped, Cursor.spells_either_iff.mpr (.inr spells),
      '(', _, head_of_spells_sign openingSpells, .inr rfl⟩
  -- A name counts only where the word `nil` has been tried before it.
  · have noNil : (keyword "nil").Rejects start := by
      rcases rejects_bind_iff.mp noNil with rejects | ⟨_, _, _, rejects⟩
      · exact rejects
      · exact absurd rejects not_rejects_pure
    rcases of_done_memberOrWalk noNil equal with ⟨shaped, spells, opens⟩
    exact ⟨shaped, Cursor.spells_either_iff.mpr (.inl spells), opens⟩

def EndsExpression (rest : List Char) : Prop :=
  NotAmong ['.', '/', '-', '&', '+'] rest

theorem complete_operand {inner : Parser Expression} {spelling : Expression → Spelling}
    (complete : Complete inner spelling EndsExpression) :
    CompleteBefore [] (operand inner) (Grammar.operand spelling) := by
  intro expression start stop shaped spells ahead
  -- The alternative of names is reached, since the word and the parenthesis are not there.
  have named {name : Name} {middle : Cursor} (canBeRead : name.CanBeRead)
      (nameSpells : start.Spells (.name name) middle)
      (equal : memberOrWalk.run start = .done expression stop) :
      (operand inner).run start = .done expression stop ∧ Opens start.rest := by
    have opens := opens_of_spells_name canBeRead.1 nameSpells
    have noParenthesis : (character '(').Rejects start := by
      apply rejects_character_iff.mpr
      rcases letter_of_spells canBeRead.1.head (Cursor.spells_name_iff.mp nameSpells).2 with
        ⟨first, more, rest, letter⟩
      rw [rest]
      rintro _ ⟨rfl⟩ rfl
      cases letter
    refine ⟨done_within_iff.mpr ?_, opens⟩
    refine (run_orElse_of_rejects ((rejects_nil canBeRead nameSpells).bind_left _) _).trans ?_
    exact (run_orElse_of_rejects (noParenthesis.bind_left _) _).trans equal
  rcases Cursor.spells_either_iff.mp spells with simple | parenthesized
  · cases shaped with
    | nothing =>
        refine ⟨done_within_iff.mpr (done_orElse_iff.mpr (.inl ?_)),
          'n', _, head_of_spells_exactly simple, .inl rfl⟩
        exact run_bind_of_done ((done_keyword_iff rfl).mpr simple)
    | member canBeRead => exact named canBeRead simple (run_member canBeRead.1 simple ahead.1)
    | walk canBeRead targetIdentifier =>
        rcases Cursor.spells_append_iff.mp simple with ⟨_, relationSpells, _⟩
        exact named canBeRead relationSpells (run_walk canBeRead.1 targetIdentifier simple)
    | union _ _ => exact absurd simple Cursor.not_spells_never
    | intersection _ _ => exact absurd simple Cursor.not_spells_never
    | exclusion _ _ => exact absurd simple Cursor.not_spells_never
  · simp only [Grammar.inParentheses, Cursor.spells_append_iff] at parenthesized
    rcases parenthesized with ⟨_, ⟨_, ⟨_, ⟨_, opening, front⟩, innerSpells⟩, back⟩, closing⟩
    have closingSolid := solid_of_spells_exactly closing rfl (by decide)
    have innerFaces : EndsExpression (')' :: stop.rest) := .cons (by decide)
    rw [← head_of_spells_sign closing] at innerFaces
    rcases complete shaped innerSpells ⟨_, back, closingSolid.absent, innerFaces⟩ with
      ⟨innerEqual, innerOpens⟩
    have noNil : (keyword "nil").Rejects start := by
      apply rejects_keyword
      rw [head_of_spells_sign opening]
      simp
    refine ⟨done_within_iff.mpr ?_, '(', _, head_of_spells_sign opening, .inr rfl⟩
    refine (run_orElse_of_rejects (noNil.bind_left _) _).trans (done_orElse_iff.mpr (.inl ?_))
    refine (run_bind_of_done ((done_character_iff_spells rfl).mpr opening)).trans ?_
    refine (run_bind_of_done (run_trivia front innerOpens.solid.absent)).trans ?_
    refine (run_bind_of_done (done_commit_iff.mpr innerEqual)).trans ?_
    have closes : (commit (do trivia; character ')')).run _ = .done () stop :=
      done_commit_iff.mpr ((run_bind_of_done (run_trivia back closingSolid.absent)).trans
        ((done_character_iff_spells rfl).mpr closing))
    exact run_bind_of_done closes

/-! ## Operators -/

/-- The parser reads a sign, unless it could be the beginning of an arrow. -/
structure IsOperator (operator : Parser Unit) (sign : Char) : Prop where
  solid : isBlank sign = false ∧ sign ≠ '/'
  spells : ∀ {start stop}, operator.run start = .done () stop →
    start.Spells (Grammar.sign sign) stop
  run : ∀ {start stop}, start.Spells (Grammar.sign sign) stop → NotAmong ['>'] stop.rest →
    operator.run start = .done () stop
  rejects : ∀ {start}, NotAmong [sign] start.rest → operator.Rejects start

theorem rejects_character_of_notAmong {sign : Char} {start : Cursor}
    (notAmong : NotAmong [sign] start.rest) : (character sign).Rejects start :=
  rejects_character_iff.mpr fun found member equal =>
    notAmong found member (List.mem_singleton.mpr equal)

theorem isOperator_character {sign : Char} (notWord : isWordCharacter sign = false)
    (solid : isBlank sign = false ∧ sign ≠ '/') : IsOperator (character sign) sign where
  solid := solid
  spells equal := (done_character_iff_spells notWord).mp equal
  run spells _ := (done_character_iff_spells notWord).mpr spells
  rejects notAmong := rejects_character_of_notAmong notAmong

theorem isOperator_minus : IsOperator minus '-' where
  solid := by decide
  spells equal := by
    rcases done_bind_iff.mp equal with ⟨_, _, sign, notArrow⟩
    rcases done_notBefore_iff.mp notArrow with ⟨rfl, _⟩
    exact (done_character_iff_spells rfl).mp sign
  run spells notArrow := by
    refine (run_bind_of_done ((done_character_iff_spells rfl).mpr spells)).trans ?_
    refine done_notBefore_iff.mpr ⟨rfl, fun next member => ?_⟩
    have other := notArrow next member
    simpa using other
  rejects notAmong := (rejects_character_of_notAmong notAmong).bind_left _

theorem spells_operation_iff {sign : Char} {combine : Expression → List Expression → Expression}
    {spelling : Expression → Spelling} {expression : Expression} {start stop : Cursor} :
    start.Spells (Grammar.operation sign combine spelling expression) stop ↔
      ∃ first more middle, expression = combine first more ∧
        start.Spells (spelling first) middle ∧
        middle.Spells (.each (fun next => Grammar.between sign ++ spelling next) more) stop := by
  simp only [Grammar.operation, Cursor.spells_oneOf_iff, Cursor.spells_provided_iff,
    Spelling.separated, Cursor.spells_append_iff]
  constructor
  · rintro ⟨first, more, equal, middle, firstSpells, moreSpells⟩
    exact ⟨first, more, middle, equal, firstSpells, moreSpells⟩
  · rintro ⟨first, more, middle, equal, firstSpells, moreSpells⟩
    exact ⟨first, more, equal, middle, firstSpells, moreSpells⟩

section Operators

variable {operator : Parser Unit} {sign : Char} {operand : Parser Expression}
  {spelling : Expression → Spelling}

theorem of_done_operation (isOperator : IsOperator operator sign) (sound : Sound operand spelling)
    {expression : Expression} {start stop : Cursor}
    (equal : (operation operator operand).run start = .done expression stop) :
    expression.WellShaped ∧ start.Spells (Grammar.between sign ++ spelling expression) stop := by
  rcases done_bind_iff.mp equal with ⟨_, _, front, equal⟩
  rcases done_bind_iff.mp equal with ⟨_, _, signEqual, equal⟩
  rcases done_bind_iff.mp equal with ⟨_, _, back, equal⟩
  rcases sound (done_commit_iff.mp equal) with ⟨shaped, spells, opens⟩
  have signSpells := isOperator.spells signEqual
  have signSolid := solid_of_spells_exactly signSpells isOperator.solid.1 isOperator.solid.2
  have between := ((spells_of_done_trivia front signSolid.ne_nil).1.append signSpells).append
    (spells_of_done_trivia back opens.solid.ne_nil).1
  exact ⟨shaped, between.append spells⟩

theorem sound_operands (isOperator : IsOperator operator sign) (sound : Sound operand spelling)
    {combine : Expression → List Expression → Expression}
    (shapes : ∀ first more, (combine first more).WellShaped ↔
      first.WellShaped ∧ ∀ next ∈ more, next.WellShaped) :
    Sound
      (do
        let first ← operand
        let more ← many (operation operator operand)
        pure (combine first more))
      (Grammar.operation sign combine spelling) := by
  intro expression start stop equal
  rcases done_bind_iff.mp equal with ⟨first, _, firstEqual, equal⟩
  rcases done_bind_iff.mp equal with ⟨more, _, moreEqual, result⟩
  rcases done_pure_iff.mp result with ⟨rfl, rfl⟩
  rcases sound firstEqual with ⟨firstShaped, firstSpells, opens⟩
  have moreShaped := all_of_many
    (fun equal => (of_done_operation isOperator sound equal).1) moreEqual
  have moreSpells := spells_of_many
    (fun equal => (of_done_operation isOperator sound equal).2) moreEqual
  exact ⟨(shapes first more).mpr ⟨firstShaped, moreShaped⟩,
    spells_operation_iff.mpr ⟨first, more, _, rfl, firstSpells, moreSpells⟩, opens⟩

/-- The text behind a sign begins with trivia or an operand, so the sign begins no arrow. -/
theorem notAmong_of_spells_trivia {start stop : Cursor}
    (spells : start.Spells Grammar.trivia stop) (opens : Opens stop.rest) :
    NotAmong ['>'] start.rest := by
  have faces : start.Faces (NotAmong ['>']) := ⟨stop, spells, opens.solid.absent, opens.notAmong⟩
  intro found member isArrow
  exact faces.head_ne (fun _ holds => holds) rfl (by decide) found member
    (List.mem_singleton.mp isArrow)

/-- Behind an operand, the sign of a looser operator begins no walk. -/
theorem nothingAhead_of_sign (isOperator : IsOperator operator sign) {signs : List Char}
    (other : sign ∉ '.' :: signs) {start middle stop : Cursor}
    (front : start.Spells Grammar.trivia middle) (spells : middle.Spells (Grammar.sign sign) stop)
    (notArrow : NotAmong ['>'] stop.rest) : NothingAhead signs start := by
  rw [List.mem_cons, not_or] at other
  have solid := solid_of_spells_exactly spells isOperator.solid.1 isOperator.solid.2
  have rest := head_of_spells_sign spells
  have endsOperand : EndsOperand middle.rest := by
    rw [rest]
    refine ⟨.cons (by simp [other.1, isOperator.solid.2]), fun arrow => ?_⟩
    rcases (List.cons_prefix_cons.mp arrow).2 with ⟨more, equal⟩
    rw [← equal] at notArrow
    exact notArrow '>' rfl (by simp)
  refine ⟨rejects_walkTarget ⟨middle, front, solid.absent, endsOperand⟩,
    middle, run_trivia front solid.absent, ?_⟩
  rw [rest]
  exact .cons other.2

theorem run_operation (isOperator : IsOperator operator sign) {signs : List Char}
    (complete : CompleteBefore signs operand spelling) (other : sign ∉ '.' :: signs)
    {expression : Expression} (shaped : expression.WellShaped) {start stop : Cursor}
    (spells : start.Spells (Grammar.between sign ++ spelling expression) stop)
    (ahead : NothingAhead signs stop) :
    (operation operator operand).run start = .done expression stop ∧
      start.offset < stop.offset ∧ NothingAhead signs start := by
  simp only [Grammar.between, Cursor.spells_append_iff] at spells
  rcases spells with ⟨_, ⟨_, ⟨_, front, signSpells⟩, back⟩, spells⟩
  rcases complete shaped spells ahead with ⟨equal, opens⟩
  have signSolid := solid_of_spells_exactly signSpells isOperator.solid.1 isOperator.solid.2
  have notArrow := notAmong_of_spells_trivia back opens
  refine ⟨?_, ?_, nothingAhead_of_sign isOperator other front signSpells notArrow⟩
  · refine (run_bind_of_done (run_trivia front signSolid.absent)).trans ?_
    refine (run_bind_of_done (isOperator.run signSpells notArrow)).trans ?_
    refine (run_bind_of_done (run_trivia back opens.solid.absent)).trans ?_
    exact done_commit_iff.mpr equal
  · have moved := signSpells.moves (by simp)
    have frontMoves := front.reaches.offset_le
    have backMoves := (back.reaches.trans spells.reaches).offset_le
    omega

theorem complete_operands (isOperator : IsOperator operator sign) {signs : List Char}
    (complete : CompleteBefore signs operand spelling) (other : sign ∉ '.' :: signs)
    {combine : Expression → List Expression → Expression}
    (shapes : ∀ first more, (combine first more).WellShaped ↔
      first.WellShaped ∧ ∀ next ∈ more, next.WellShaped) :
    CompleteBefore (sign :: signs)
      (do
        let first ← operand
        let more ← many (operation operator operand)
        pure (combine first more))
      (Grammar.operation sign combine spelling) := by
  intro expression start stop shaped spells ahead
  rcases spells_operation_iff.mp spells with ⟨first, more, middle, rfl, firstSpells, moreSpells⟩
  rcases (shapes first more).mp shaped with ⟨firstShaped, moreShaped⟩
  rcases ahead with ⟨noWalk, next, triviaEqual, notAmong⟩
  have rejects : (operation operator operand).Rejects stop :=
    Rejects.bind_right triviaEqual ((isOperator.rejects (notAmong.subset (by simp))).bind_left _)
  have aheadOfRun : NothingAhead signs stop :=
    ⟨noWalk, next, triviaEqual, notAmong.subset (by simp)⟩
  rcases run_many_of_links (NothingAhead signs)
    (fun next member _ _ => run_operation isOperator complete other (moreShaped next member))
    (links_of_spells moreSpells) aheadOfRun rejects with
    ⟨moreEqual, aheadOfFirst⟩
  rcases complete firstShaped firstSpells aheadOfFirst with ⟨firstEqual, opens⟩
  refine ⟨?_, opens⟩
  exact (run_bind_of_done firstEqual).trans (run_bind_of_done moreEqual)

end Operators

/-! ## Levels -/

theorem wellShaped_foldl_exclusion_iff (first : Expression) (more : List Expression) :
    (more.foldl .exclusion first).WellShaped ↔
      first.WellShaped ∧ ∀ next ∈ more, next.WellShaped := by
  induction more generalizing first with
  | nil => simp
  | cons next more induction =>
      rw [List.foldl_cons, induction, List.forall_mem_cons, ← and_assoc]
      constructor
      · rintro ⟨shaped, moreShaped⟩
        cases shaped with
        | exclusion baseShaped removedShaped => exact ⟨⟨baseShaped, removedShaped⟩, moreShaped⟩
      · rintro ⟨⟨baseShaped, removedShaped⟩, moreShaped⟩
        exact ⟨.exclusion baseShaped removedShaped, moreShaped⟩

/-- For a flat node it does not matter which operator it has. -/
theorem wellShaped_flat_iff {combine : List Expression → Expression}
    (shapes : ∀ operands, (combine operands).WellShaped ↔
      2 ≤ operands.length ∧ ∀ operand ∈ operands, operand.WellShaped)
    (first : Expression) (more : List Expression) :
    (flat combine first more).WellShaped ↔
      first.WellShaped ∧ ∀ next ∈ more, next.WellShaped := by
  cases more with
  | nil => simp [flat]
  | cons next more => simp [flat, shapes]

theorem wellShaped_union_iff (operands : List Expression) :
    (union operands).WellShaped ↔
      2 ≤ operands.length ∧ ∀ operand ∈ operands, operand.WellShaped := by
  constructor
  · rintro (_ | _ | _ | ⟨several, shaped⟩)
    exact ⟨several, shaped⟩
  · rintro ⟨several, shaped⟩
    exact .union several shaped

theorem wellShaped_intersection_iff (operands : List Expression) :
    (intersection operands).WellShaped ↔
      2 ≤ operands.length ∧ ∀ operand ∈ operands, operand.WellShaped := by
  constructor
  · rintro (_ | _ | _ | _ | ⟨several, shaped⟩)
    exact ⟨several, shaped⟩
  · rintro ⟨several, shaped⟩
    exact .intersection several shaped

theorem isOperator_ampersand : IsOperator (character '&') '&' :=
  isOperator_character rfl (by decide)

theorem isOperator_plus : IsOperator (character '+') '+' :=
  isOperator_character rfl (by decide)

theorem sound_unions {operand : Parser Expression} {spelling : Expression → Spelling}
    (sound : Sound operand spelling) : Sound (unions operand) (Grammar.unions spelling) := by
  have exclusions : Sound (exclusions operand) (Grammar.exclusions spelling) :=
    sound_operands isOperator_minus sound wellShaped_foldl_exclusion_iff
  have intersections : Sound (intersections operand) (Grammar.intersections spelling) :=
    sound_operands isOperator_ampersand exclusions
      (wellShaped_flat_iff wellShaped_intersection_iff)
  exact sound_operands isOperator_plus intersections
    (wellShaped_flat_iff wellShaped_union_iff)

theorem complete_unions {operand : Parser Expression} {spelling : Expression → Spelling}
    (complete : CompleteBefore [] operand spelling) :
    CompleteBefore ['+', '&', '-'] (unions operand) (Grammar.unions spelling) := by
  have exclusions : CompleteBefore ['-'] (exclusions operand) (Grammar.exclusions spelling) :=
    complete_operands isOperator_minus complete (by decide) wellShaped_foldl_exclusion_iff
  have intersections :
      CompleteBefore ['&', '-'] (intersections operand) (Grammar.intersections spelling) :=
    complete_operands isOperator_ampersand exclusions (by decide)
      (wellShaped_flat_iff wellShaped_intersection_iff)
  exact complete_operands isOperator_plus intersections (by decide)
    (wellShaped_flat_iff wellShaped_union_iff)

theorem nothingAhead_of_faces {stop : Cursor} (faces : stop.Faces EndsExpression) :
    NothingAhead ['+', '&', '-'] stop := by
  constructor
  · refine rejects_walkTarget (faces.mono fun rest ends => ⟨ends.subset (by simp), ?_⟩)
    rintro ⟨more, rfl⟩
    exact ends '-' rfl (by simp)
  · rcases faces with ⟨next, spells, absent, ends⟩
    exact ⟨next, run_trivia spells absent, ends.subset (by simp)⟩

theorem sound_nested (depth : Nat) : Sound (nested depth) (Grammar.nested depth) := by
  induction depth with
  | zero =>
      intro expression start stop equal
      cases equal
  | succ depth induction =>
      exact sound_unions (sound_operand fun _ _ _ equal => induction (done_delay_iff.mp equal))

/-- The levels inside an expression are expressions again, so the depth of a text needs no bound. -/
theorem complete_nested (depth : Nat) :
    Complete expression (Grammar.nested depth) EndsExpression := by
  induction depth with
  | zero =>
      intro expression start stop _ spells _
      exact absurd spells Cursor.not_spells_never
  | succ depth induction =>
      intro expression start stop shaped spells faces
      rw [run_expression]
      exact complete_unions (complete_operand induction) shaped spells (nothingAhead_of_faces faces)

end Expression

open Expression

theorem of_done_expression {read : Expression} {start stop : Cursor}
    (equal : expression.run start = .done read stop) :
    read.WellShaped ∧ start.Spells (Grammar.expression read) stop ∧ Opens start.rest := by
  have nestedEqual : (nested (start.rest.length + 1)).run start = .done read stop := equal
  rcases sound_nested _ nestedEqual with ⟨shaped, spells, opens⟩
  exact ⟨shaped, Cursor.spells_oneOf_iff.mpr ⟨_, spells⟩, opens⟩

theorem run_expression_of_spells {written : Expression} (shaped : written.WellShaped)
    {start stop : Cursor} (spells : start.Spells (Grammar.expression written) stop)
    (faces : stop.Faces EndsExpression) :
    expression.run start = .done written stop ∧ Opens start.rest := by
  rcases Cursor.spells_oneOf_iff.mp spells with ⟨depth, spells⟩
  exact complete_nested depth shaped spells faces

end PermissionTypes.Schema
