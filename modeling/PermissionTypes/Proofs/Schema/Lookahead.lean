import PermissionTypes.Proofs.Schema.TriviaReading
import PermissionTypes.Proofs.Schema.WordReading

/-! What the first characters of a text decide: whether trivia has come to its end, and which
construct cannot begin there. -/

namespace PermissionTypes.Schema

open Schema.Parser
open Trivia (isBlank Absent)
open Grammar (IsIdentifier IsPath)

/-! ## Solid beginnings -/

/-- The text has a first character, and it belongs to no trivia. -/
def Solid (rest : List Char) : Prop :=
  ∃ first more, rest = first :: more ∧ isBlank first = false ∧ first ≠ '/'

namespace Solid

theorem absent {rest : List Char} (solid : Solid rest) : Absent rest := by
  rcases solid with ⟨first, more, rfl, notBlank, notSlash⟩
  exact .of_head notBlank notSlash

theorem ne_nil {rest : List Char} (solid : Solid rest) : rest ≠ [] := by
  rcases solid with ⟨first, more, rfl, _⟩
  simp

end Solid

theorem isBlank_of_isLetter {character : Char} (letter : isLetter character = true) :
    isBlank character = false := by
  cases blank : isBlank character with
  | false => rfl
  | true =>
      have word := isWordCharacter_of_isLetter letter
      rw [Trivia.isWordCharacter_of_isBlank blank] at word
      cases word

theorem solid_of_letter {first : Char} {more : List Char} (letter : isLetter first = true) :
    Solid (first :: more) := by
  refine ⟨first, more, rfl, isBlank_of_isLetter letter, ?_⟩
  rintro rfl
  cases letter

theorem head_of_spells_exactly {start stop : Cursor} {first : Char} {more : List Char}
    (spells : start.Spells (.exactly (first :: more)) stop) :
    start.rest = first :: (more ++ stop.rest) :=
  (Cursor.spells_exactly_iff.mp spells).1.rest_eq

theorem solid_of_spells_exactly {start stop : Cursor} {first : Char} {more : List Char}
    (spells : start.Spells (.exactly (first :: more)) stop) (notBlank : isBlank first = false)
    (notSlash : first ≠ '/') : Solid start.rest :=
  ⟨first, _, head_of_spells_exactly spells, notBlank, notSlash⟩

/-! ## Beginnings of words -/

theorem Grammar.IsPath.head {text : List Char} (isPath : IsPath text) :
    ∃ first more, text = first :: more ∧ isLetter first = true := by
  rcases isPath with ⟨identifiers, notNil, all, rfl⟩
  cases identifiers with
  | nil => exact absurd rfl notNil
  | cons identifier identifiers =>
      rcases (all identifier (List.mem_cons_self ..)).head with ⟨first, more, rfl, letter⟩
      exact ⟨first, _, by rw [join_slash_cons]; rfl, letter⟩

theorem letter_of_spells {start stop : Cursor} {text : List Char}
    (starts : ∃ first more, text = first :: more ∧ isLetter first = true)
    (spells : start.Spells (.exactly text) stop) :
    ∃ first more, start.rest = first :: more ∧ isLetter first = true := by
  rcases starts with ⟨first, more, rfl, letter⟩
  exact ⟨first, _, head_of_spells_exactly spells, letter⟩

theorem solid_of_spells {start stop : Cursor} {text : List Char}
    (starts : ∃ first more, text = first :: more ∧ isLetter first = true)
    (spells : start.Spells (.exactly text) stop) : Solid start.rest := by
  rcases letter_of_spells starts spells with ⟨first, more, equal, letter⟩
  rw [equal]
  exact solid_of_letter letter

theorem solid_of_spells_name {start stop : Cursor} {name : Name}
    (starts : ∃ first more, name.text.toList = first :: more ∧ isLetter first = true)
    (spells : start.Spells (.name name) stop) : Solid start.rest :=
  solid_of_spells starts (Cursor.spells_name_iff.mp spells).2

/-! ## Leading words -/

def BeginsWith (word : String) (spelling : Spelling) : Prop :=
  ∀ ⦃start stop : Cursor⦄, start.Spells spelling stop →
    ∃ middle, start.Spells (Grammar.word word) middle ∧ middle.Reaches stop

namespace BeginsWith

theorem word (word : String) : BeginsWith word (Grammar.word word) :=
  fun _ stop spells => ⟨stop, spells, .refl stop⟩

theorem append {word : String} {front : Spelling} (begins : BeginsWith word front)
    (back : Spelling) : BeginsWith word (front ++ back) := by
  intro start stop spells
  rcases Cursor.spells_append_iff.mp spells with ⟨_, frontSpells, backSpells⟩
  rcases begins frontSpells with ⟨middle, wordSpells, reaches⟩
  exact ⟨middle, wordSpells, reaches.trans backSpells.reaches⟩

theorem head {word : String} {spelling : Spelling} (begins : BeginsWith word spelling)
    {start stop : Cursor} (spells : start.Spells spelling stop) {first : Char}
    {more : List Char} (equal : word.toList = first :: more) :
    (∃ rest, start.rest = first :: rest) ∧ start.offset < stop.offset := by
  rcases begins spells with ⟨middle, wordSpells, reaches⟩
  rw [Grammar.word, equal] at wordSpells
  have moved := wordSpells.moves (List.cons_ne_nil first more)
  have moves := reaches.offset_le
  exact ⟨⟨_, head_of_spells_exactly wordSpells⟩, by omega⟩

end BeginsWith

/-! ## Behind trivia -/

def NotAmong (characters rest : List Char) : Prop :=
  ∀ next ∈ rest.head?, next ∉ characters

theorem NotAmong.cons {characters more : List Char} {first : Char}
    (other : first ∉ characters) : NotAmong characters (first :: more) := by
  rintro next ⟨rfl⟩
  exact other

theorem NotAmong.subset {fewer characters rest : List Char} (notAmong : NotAmong characters rest)
    (subset : fewer ⊆ characters) : NotAmong fewer rest :=
  fun next member found => notAmong next member (subset found)

/-- What comes behind the trivia that may follow. -/
def Cursor.Faces (cursor : Cursor) (ends : List Char → Prop) : Prop :=
  ∃ next, cursor.Spells Grammar.trivia next ∧ Absent next.rest ∧ ends next.rest

namespace Cursor.Faces

theorem mono {cursor : Cursor} {ends weaker : List Char → Prop} (faces : cursor.Faces ends)
    (weakens : ∀ rest, ends rest → weaker rest) : cursor.Faces weaker := by
  rcases faces with ⟨next, spells, absent, holds⟩
  exact ⟨next, spells, absent, weakens _ holds⟩

/-- A character that is no part of trivia and is not faced does not stand before the trivia
either. -/
theorem head_ne {cursor : Cursor} {ends : List Char → Prop} {character : Char}
    (faces : cursor.Faces ends) (notFaced : ∀ rest, ends rest → NotAmong [character] rest)
    (notBlank : isBlank character = false) (notSlash : character ≠ '/') :
    ∀ found ∈ cursor.rest.head?, found ≠ character := by
  rcases faces with ⟨next, spells, _, holds⟩
  rcases spells_trivia_iff.mp spells with ⟨text, reads, isTrivia⟩
  rw [reads.rest_eq]
  by_cases none : text = []
  · subst none
    intro found member equal
    exact notFaced _ holds found member (List.mem_singleton.mpr equal)
  · rcases Trivia.head_of_isTrivia isTrivia none with ⟨first, more, rfl, blank | rfl⟩
    · rintro found ⟨rfl⟩ rfl
      rw [blank] at notBlank
      cases notBlank
    · rintro found ⟨rfl⟩ rfl
      exact notSlash rfl

/-- Before trivia no path goes on, since a slash there begins a comment. -/
theorem pathEnds {cursor : Cursor} {ends : List Char → Prop} (faces : cursor.Faces ends)
    (notFaced : ∀ rest, ends rest → NotAmong ['/'] rest) : PathEnds cursor.rest := by
  rcases faces with ⟨behind, spells, _, holds⟩
  rcases spells_trivia_iff.mp spells with ⟨text, reads, isTrivia⟩
  intro next slash
  rw [reads.rest_eq] at slash
  cases isTrivia with
  | nil =>
      rcases slash with ⟨more, equal⟩
      have head : '/' ∈ behind.rest.head? := by
        rw [← List.nil_append behind.rest, ← equal]
        rfl
      exact absurd (List.mem_singleton.mpr rfl) (notFaced _ holds '/' head)
  | cons isPiece _ =>
      cases isPiece with
      | blank blank =>
          rw [← (List.cons_prefix_cons.mp slash).1] at blank
          cases blank
      | lineComment _ _ =>
          rw [(List.cons_prefix_cons.mp (List.cons_prefix_cons.mp slash).2).1]
          rfl
      | blockComment _ =>
          rw [(List.cons_prefix_cons.mp (List.cons_prefix_cons.mp slash).2).1]
          rfl

end Cursor.Faces

end PermissionTypes.Schema
