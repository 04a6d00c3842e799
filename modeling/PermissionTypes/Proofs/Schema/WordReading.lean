import PermissionTypes.Proofs.Schema.Grammar
import PermissionTypes.Proofs.Schema.Running

/-! Words are read as far as they go, so a word is read exactly where the grammar spells it. -/

namespace PermissionTypes.Schema

open Schema.Parser
open Grammar (IsIdentifier IsPath)

theorem isWordCharacter_of_isLetter {character : Char} (letter : isLetter character = true) :
    isWordCharacter character = true := by
  rw [isLetter] at letter
  simp [isWordCharacter, Char.isAlphanum, letter]

/-! ## Signs and keywords -/

theorem done_character_iff_spells {wanted : Char} (sign : isWordCharacter wanted = false)
    {start stop : Cursor} :
    (character wanted).run start = .done () stop ↔ start.Spells (Grammar.sign wanted) stop := by
  rw [done_character_iff]
  constructor
  · intro reads
    exact reads.spells (by simp [sign])
  · intro spells
    exact (Cursor.spells_exactly_iff.mp spells).1

theorem head_of_spells_sign {character : Char} {start stop : Cursor}
    (spells : start.Spells (Grammar.sign character) stop) :
    start.rest = character :: stop.rest :=
  (Cursor.spells_exactly_iff.mp spells).1.rest_eq

/-- A keyword ends in a word character, so it is spelled where nothing lengthens it. -/
theorem done_keyword_iff {word : String}
    (ends : word.toList.getLast?.any isWordCharacter = true) {start stop : Cursor} :
    (keyword word).run start = .done () stop ↔ start.Spells (Grammar.word word) stop := by
  rw [Grammar.word, Cursor.spells_exactly_iff, keyword, done_bind_iff]
  simp only [done_exactly_iff, done_notBefore_iff]
  have last : ∃ last ∈ word.toList.getLast?, isWordCharacter last = true := by
    cases last : word.toList.getLast? with
    | none => simp [last] at ends
    | some character => exact ⟨character, rfl, by simpa [last] using ends⟩
  rcases last with ⟨last, lastMember, isWord⟩
  constructor
  · rintro ⟨_, _, reads, rfl, notLonger⟩
    exact ⟨reads, .of_head notLonger⟩
  · rintro ⟨reads, apart⟩
    exact ⟨(), stop, reads, rfl, fun next member => apart last lastMember next member isWord⟩

theorem rejects_keyword {word : String} {start : Cursor}
    (other : ¬ word.toList <+: start.rest) : (keyword word).Rejects start :=
  (rejects_exactly_iff.mpr other).bind_left _

theorem rejects_keyword_of_not_done {word : String} {start : Cursor}
    (notDone : ∀ stop, (keyword word).run start ≠ .done () stop) :
    (keyword word).Rejects start := by
  by_cases fits : word.toList <+: start.rest
  · rcases fits with ⟨rest, equal⟩
    let stop := start.advance word.toList rest
    have reads : start.Reads word.toList stop := Cursor.reads_advance equal.symm
    refine Rejects.bind_right (run_exactly reads) (rejects_notBefore_iff.mpr ?_)
    refine Classical.byContradiction fun notLonger => ?_
    refine notDone stop ((run_bind_of_done (run_exactly reads)).trans ?_)
    refine done_notBefore_iff.mpr ⟨rfl, fun next member => ?_⟩
    rw [Bool.eq_false_iff]
    exact fun longer => notLonger ⟨next, member, longer⟩
  · exact rejects_keyword fits

/-! ## Identifiers -/

theorem Grammar.IsIdentifier.ne_nil {text : List Char} (isIdentifier : IsIdentifier text) :
    text ≠ [] := by
  rcases isIdentifier with ⟨first, more, rfl, _⟩
  simp

theorem Grammar.IsIdentifier.head {text : List Char} (isIdentifier : IsIdentifier text) :
    ∃ first more, text = first :: more ∧ isLetter first = true := by
  rcases isIdentifier with ⟨first, more, rfl, letter, _⟩
  exact ⟨first, more, rfl, letter⟩

theorem Grammar.IsIdentifier.isWordCharacter {text : List Char} (isIdentifier : IsIdentifier text) :
    ∀ character ∈ text, isWordCharacter character = true := by
  rcases isIdentifier with ⟨first, more, rfl, letter, word⟩
  intro character member
  rcases List.mem_cons.mp member with rfl | member
  · exact isWordCharacter_of_isLetter letter
  · exact word character member

theorem done_identifier_iff {start stop : Cursor} {text : List Char} :
    identifier.run start = .done text stop ↔
      IsIdentifier text ∧ start.Spells (.exactly text) stop := by
  rw [identifier, done_within_iff, Cursor.spells_exactly_iff]
  simp only [done_bind_iff, done_oneOf_iff, done_takeWhile_iff, done_pure_iff]
  constructor
  · rintro ⟨first, middle, ⟨letter, readsFirst⟩, more, _, ⟨reads, word, ends⟩, rfl, rfl⟩
    exact ⟨⟨first, more, rfl, letter, word⟩, readsFirst.trans reads, .of_head ends⟩
  · rintro ⟨isIdentifier, reads, apart⟩
    have lastWord : ∃ last ∈ text.getLast?, isWordCharacter last = true := by
      have last := List.getLast?_eq_some_getLast isIdentifier.ne_nil
      exact ⟨_, last, isIdentifier.isWordCharacter _ (List.getLast_mem _)⟩
    rcases lastWord with ⟨last, lastMember, isWord⟩
    rcases isIdentifier with ⟨first, more, rfl, letter, word⟩
    rw [← List.singleton_append, Cursor.reads_append_iff] at reads
    rcases reads with ⟨middle, readsFirst, readsMore⟩
    refine ⟨first, middle, ⟨letter, readsFirst⟩, more, stop, ⟨readsMore, word, ?_⟩, rfl, rfl⟩
    exact fun next member => apart last lastMember next member isWord

theorem rejects_identifier {start : Cursor}
    (other : ∀ next ∈ start.rest.head?, isLetter next = false) : identifier.Rejects start :=
  rejects_within_iff.mpr ((rejects_oneOf_iff.mpr other).bind_left _)

/-! ## Names -/

theorem done_named_iff {parser : Parser (List Char)} {start stop : Cursor} {name : Name} :
    (named parser).run start = .done name stop ↔
      name.offset = start.offset ∧ parser.run start = .done name.text.toList stop := by
  rw [named]
  simp only [done_bind_iff, done_offset_iff, done_pure_iff]
  constructor
  · rintro ⟨_, _, ⟨rfl, rfl⟩, text, _, equal, rfl, rfl⟩
    exact ⟨rfl, by rwa [String.toList_ofList]⟩
  · rintro ⟨offset, equal⟩
    refine ⟨_, _, ⟨rfl, rfl⟩, _, _, equal, ?_, rfl⟩
    rw [String.ofList_toList, ← offset]

theorem done_named_identifier_iff {start stop : Cursor} {name : Name} :
    (named identifier).run start = .done name stop ↔
      IsIdentifier name.text.toList ∧ start.Spells (.name name) stop := by
  rw [done_named_iff, done_identifier_iff, Cursor.spells_name_iff, and_left_comm]

/-! ## Paths -/

theorem join_slash_cons (first : List Char) (more : List (List Char)) :
    Text.join ['/'] (first :: more) = first ++ more.flatMap ('/' :: ·) := by
  induction more generalizing first with
  | nil => simp [Text.join]
  | cons next more induction => simp [Text.join, induction]

def pathStep : Parser (List Char) := do
  character '/'
  identifier

/-- No further part of a path begins here. -/
def PathEnds (rest : List Char) : Prop :=
  ∀ next, ['/', next] <+: rest → isLetter next = false

theorem rejects_pathStep {start : Cursor} (ends : PathEnds start.rest) :
    pathStep.Rejects start := by
  cases rest : start.rest with
  | nil =>
      apply Rejects.bind_left
      simp [rejects_character_iff, rest]
  | cons first more =>
      by_cases slash : first = '/'
      · subst slash
        have reads : start.Reads ['/'] (start.advance ['/'] more) := Cursor.reads_advance rest
        refine Rejects.bind_right (run_character reads) (rejects_identifier ?_)
        intro next member
        apply ends next
        rw [rest]
        cases more with
        | nil => cases member
        | cons second more =>
            cases member
            simp
      · apply Rejects.bind_left
        simp [rejects_character_iff, rest, slash]

theorem done_pathStep_iff {start stop : Cursor} {text : List Char} :
    pathStep.run start = .done text stop ↔
      IsIdentifier text ∧ start.Spells (.exactly ('/' :: text)) stop := by
  have apart : Apart ['/'] text := by
    apply Apart.of_last
    rintro last ⟨rfl⟩
    rfl
  rw [← List.singleton_append, Cursor.spells_exactly_append_iff apart, Cursor.spells_append_iff,
    pathStep, done_bind_iff]
  simp only [done_character_iff_spells (show isWordCharacter '/' = false from rfl),
    done_identifier_iff]
  constructor
  · rintro ⟨_, middle, slash, isIdentifier, spells⟩
    exact ⟨isIdentifier, middle, slash, spells⟩
  · rintro ⟨isIdentifier, middle, slash, spells⟩
    exact ⟨(), middle, slash, isIdentifier, spells⟩

theorem done_typeName_iff_many {start stop : Cursor} {text : List Char} :
    typeName.run start = .done text stop ↔
      ∃ first middle more, identifier.run start = .done first middle ∧
        (many pathStep).run middle = .done more stop ∧
        text = Text.join ['/'] (first :: more) := by
  rw [typeName, done_within_iff]
  simp only [done_bind_iff, done_pure_iff, join_slash_cons]
  constructor
  · rintro ⟨first, middle, firstEqual, more, _, moreEqual, rfl, rfl⟩
    exact ⟨first, middle, more, firstEqual, moreEqual, rfl⟩
  · rintro ⟨first, middle, more, firstEqual, moreEqual, rfl⟩
    exact ⟨first, middle, firstEqual, more, stop, moreEqual, rfl, rfl⟩

theorem apart_slashes (front : List Char) (more : List (List Char)) :
    Apart front (more.flatMap ('/' :: ·)) := by
  apply Apart.of_head
  cases more with
  | nil => simp
  | cons _ _ =>
      rintro _ ⟨rfl⟩
      rfl

theorem spells_slashes_iff {start stop : Cursor} {more : List (List Char)} :
    start.Spells (.each (fun identifier => .exactly ('/' :: identifier)) more) stop ↔
      start.Spells (.exactly (more.flatMap ('/' :: ·))) stop := by
  induction more generalizing start with
  | nil => exact Iff.rfl
  | cons next more induction =>
      rw [List.flatMap_cons, Cursor.spells_exactly_append_iff (apart_slashes _ more)]
      simp only [Spelling.each, Cursor.spells_append_iff, induction]

theorem of_done_typeName {start stop : Cursor} {text : List Char}
    (equal : typeName.run start = .done text stop) :
    IsPath text ∧ start.Spells (.exactly text) stop := by
  rcases done_typeName_iff_many.mp equal with ⟨first, middle, more, firstEqual, moreEqual, rfl⟩
  rcases done_identifier_iff.mp firstEqual with ⟨firstIdentifier, firstSpells⟩
  have moreIdentifiers := all_of_many (fun equal => (done_pathStep_iff.mp equal).1) moreEqual
  have moreSpells := spells_of_many (fun equal => (done_pathStep_iff.mp equal).2) moreEqual
  refine ⟨⟨first :: more, by simp, ?_, rfl⟩, ?_⟩
  · intro identifier member
    rcases List.mem_cons.mp member with rfl | member
    · exact firstIdentifier
    · exact moreIdentifiers identifier member
  · rw [join_slash_cons, Cursor.spells_exactly_append_iff (apart_slashes _ more)]
    exact firstSpells.append (spells_slashes_iff.mp moreSpells)

theorem run_typeName {start stop : Cursor} {text : List Char} (isPath : IsPath text)
    (spells : start.Spells (.exactly text) stop) (ends : PathEnds stop.rest) :
    typeName.run start = .done text stop := by
  rcases isPath with ⟨identifiers, notNil, all, rfl⟩
  cases identifiers with
  | nil => exact absurd rfl notNil
  | cons first more =>
      rw [join_slash_cons, Cursor.spells_exactly_append_iff (apart_slashes _ more)] at spells
      rcases Cursor.spells_append_iff.mp spells with ⟨middle, firstSpells, moreSpells⟩
      have firstEqual : identifier.run start = .done first middle :=
        done_identifier_iff.mpr ⟨all first (List.mem_cons_self ..), firstSpells⟩
      have moreEqual : (many pathStep).run middle = .done more stop := by
        refine (run_many_of_links (fun _ => True) ?_
          (links_of_spells (spells_slashes_iff.mpr moreSpells)) trivial
          (rejects_pathStep ends)).1
        intro identifier member stepStart stepStop step _
        have equal := done_pathStep_iff.mpr ⟨all identifier (List.mem_cons_of_mem _ member), step⟩
        exact ⟨equal, step.moves (by simp), trivial⟩
      exact done_typeName_iff_many.mpr ⟨first, middle, more, firstEqual, moreEqual, rfl⟩

theorem of_done_named_typeName {start stop : Cursor} {name : Name}
    (equal : (named typeName).run start = .done name stop) :
    IsPath name.text.toList ∧ start.Spells (.name name) stop := by
  rcases done_named_iff.mp equal with ⟨offset, equal⟩
  rcases of_done_typeName equal with ⟨isPath, spells⟩
  exact ⟨isPath, Cursor.spells_name_iff.mpr ⟨offset, spells⟩⟩

theorem run_named_typeName {start stop : Cursor} {name : Name} (isPath : IsPath name.text.toList)
    (spells : start.Spells (.name name) stop) (ends : PathEnds stop.rest) :
    (named typeName).run start = .done name stop := by
  rcases Cursor.spells_name_iff.mp spells with ⟨offset, spells⟩
  exact done_named_iff.mpr ⟨offset, run_typeName isPath spells ends⟩

end PermissionTypes.Schema
