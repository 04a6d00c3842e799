import PermissionTypes.Proofs.Schema.Concatenation
import PermissionTypes.Proofs.Schema.ListReading

/-! Beginnings of texts of the grammar. How a text goes on is up to its completion, so it may go on
with trivia or with a letter as it needs to, but it may not lengthen a word that has been read. -/

namespace PermissionTypes.Schema

open Text (byteLength byteLength_append)
open Schema.Parser
open Trivia (isBlank isLineEnd)
open Grammar (IsTrivia IsPiece IsOpenComment)

/-! ## Spellings that go on -/

namespace Spelling

def Possible (spelling : Spelling) : Prop :=
  ∀ offset, ∃ text, spelling offset text

/-- At every place there are texts that may stand right behind a word. -/
def Detached (spelling : Spelling) : Prop :=
  ∀ offset, ∃ text, spelling offset text ∧ ∀ first ∈ text.head?, isWordCharacter first = false

def Punctuated (spelling : Spelling) : Prop :=
  ∀ ⦃offset text⦄, spelling offset text → ∀ last ∈ text.getLast?, isWordCharacter last = false

/-- Behind every text of the first spelling there can stand one of the second. -/
def Continues (front back : Spelling) : Prop :=
  ∀ ⦃offset text⦄, front offset text →
    ∃ more, back (offset + byteLength text) more ∧ Apart text more

theorem Detached.possible {spelling : Spelling} (detached : spelling.Detached) :
    spelling.Possible := by
  intro offset
  rcases detached offset with ⟨text, spelled, _⟩
  exact ⟨text, spelled⟩

theorem Detached.continues {back : Spelling} (detached : back.Detached) (front : Spelling) :
    front.Continues back := by
  intro offset text _
  rcases detached (offset + byteLength text) with ⟨more, spelled, punctuated⟩
  exact ⟨more, spelled, .of_head punctuated⟩

theorem Punctuated.continues {front back : Spelling} (punctuated : front.Punctuated)
    (possible : back.Possible) : front.Continues back := by
  intro offset text spelled
  rcases possible (offset + byteLength text) with ⟨more, backSpelled⟩
  exact ⟨more, backSpelled, .of_last (punctuated spelled)⟩

theorem Possible.append {front back : Spelling} (possible : front.Possible)
    (continues : front.Continues back) : (front ++ back).Possible := by
  intro offset
  rcases possible offset with ⟨text, spelled⟩
  rcases continues spelled with ⟨more, backSpelled, apart⟩
  exact ⟨text ++ more, text, more, rfl, apart, spelled, backSpelled⟩

theorem Possible.mono {first second : Spelling} (possible : first.Possible)
    (within : Within first second) : second.Possible := by
  intro offset
  rcases possible offset with ⟨text, spelled⟩
  exact ⟨text, within spelled⟩

theorem Detached.mono {first second : Spelling} (detached : first.Detached)
    (within : Within first second) : second.Detached := by
  intro offset
  rcases detached offset with ⟨text, spelled, punctuated⟩
  exact ⟨text, within spelled, punctuated⟩

theorem Detached.append {front back : Spelling} (frontDetached : front.Detached)
    (backDetached : back.Detached) : (front ++ back).Detached := by
  intro offset
  rcases frontDetached offset with ⟨text, spelled, frontPunctuated⟩
  rcases backDetached (offset + byteLength text) with ⟨more, backSpelled, backPunctuated⟩
  refine ⟨text ++ more, ⟨text, more, rfl, .of_head backPunctuated, spelled, backSpelled⟩, ?_⟩
  cases text with
  | nil => exact backPunctuated
  | cons first text => exact frontPunctuated

theorem possible_exactly (text : List Char) : (exactly text).Possible :=
  fun _ => ⟨text, rfl⟩

theorem detached_exactly {text : List Char}
    (punctuated : text.head?.any isWordCharacter = false) : (exactly text).Detached := by
  intro offset
  refine ⟨text, rfl, fun first member => ?_⟩
  rw [Option.mem_def] at member
  simpa [member] using punctuated

theorem detached_nothing : (exactly []).Detached :=
  detached_exactly rfl

theorem punctuated_exactly {text : List Char}
    (punctuated : text.getLast?.any isWordCharacter = false) : (exactly text).Punctuated := by
  rintro offset _ rfl last member
  rw [Option.mem_def] at member
  simpa [member] using punctuated

theorem Possible.append_detached {front back : Spelling} (possible : front.Possible)
    (detached : back.Detached) : (front ++ back).Possible :=
  possible.append (detached.continues front)

theorem detached_exactly_append {text : List Char} {back : Spelling}
    (detached : text.head?.any isWordCharacter = false)
    (punctuated : text.getLast?.any isWordCharacter = false) (notNil : text ≠ [])
    (possible : back.Possible) : (exactly text ++ back).Detached := by
  intro offset
  rcases possible (offset + byteLength text) with ⟨more, spelled⟩
  have ends := punctuated_exactly punctuated
  refine ⟨text ++ more, ⟨text, more, rfl, .of_last (@ends offset text rfl), rfl, spelled⟩, ?_⟩
  cases text with
  | nil => exact absurd rfl notNil
  | cons first text =>
      rintro _ ⟨rfl⟩
      simpa using detached

/-! ### Repetitions -/

def repeated (spelling : Spelling) : Spelling :=
  .oneOf fun times : List Unit => .each (fun _ => spelling) times

theorem detached_repeated (spelling : Spelling) : (repeated spelling).Detached :=
  fun _ => ⟨[], ⟨[], rfl⟩, nofun⟩

theorem repeated_of_append (spelling : Spelling) :
    Within (spelling ++ repeated spelling) (repeated spelling) := by
  rintro offset text ⟨first, second, equal, apart, spelled, times, more⟩
  exact ⟨() :: times, first, second, equal, apart, spelled, more⟩

theorem repeated_of_once (spelling : Spelling) : Within spelling (repeated spelling) := by
  intro offset text spelled
  refine repeated_of_append spelling ⟨text, [], ?_, .nil_right text, spelled, [], rfl⟩
  rw [List.append_nil]

/-! ### Spellings of any value -/

def anyOf (holds : α → Prop) (spelling : α → Spelling) : Spelling :=
  .oneOf fun value => .provided (holds value) (spelling value)

theorem Within.of_spells {first second : Spelling}
    (implies : ∀ ⦃start stop : Cursor⦄, start.Spells first stop → start.Spells second stop) :
    Within first second := by
  have equal : either first second = second := by
    apply eq_of_spells
    intro start stop
    rw [Cursor.spells_either_iff]
    exact or_iff_right_of_imp fun spells => implies spells
  intro offset text spelled
  rw [← equal]
  exact .inl spelled

theorem anyOf_mono {holds : α → Prop} {first second : α → Spelling}
    (within : ∀ value, Within (first value) (second value)) :
    Within (anyOf holds first) (anyOf holds second) := by
  rintro offset text ⟨value, valueHolds, spelled⟩
  exact ⟨value, valueHolds, within value spelled⟩

/-- Spellings of some values, one behind the other, are the spelling of a list of values. -/
theorem each_of_repeated {spelling : α → Spelling} {holds : α → Prop} {once : Spelling}
    (isOne : Within once (anyOf holds spelling)) :
    Within (repeated once) (anyOf (fun values => ∀ value ∈ values, holds value)
      (.each spelling)) := by
  rintro offset text ⟨times, spelled⟩
  induction times generalizing offset text with
  | nil => exact ⟨[], List.forall_mem_nil _, spelled⟩
  | cons _ times induction =>
      rcases spelled with ⟨first, second, equal, apart, firstSpelled, moreSpelled⟩
      rcases isOne firstSpelled with ⟨value, valueHolds, valueSpelled⟩
      rcases induction moreSpelled with ⟨values, valuesHold, valuesSpelled⟩
      exact ⟨value :: values, List.forall_mem_cons.mpr ⟨valueHolds, valuesHold⟩, first, second,
        equal, apart, valueSpelled, valuesSpelled⟩

theorem append_anyOf_within (holds : α → Prop) (front : Spelling) (spelling : α → Spelling) :
    Within (front ++ anyOf holds spelling) (anyOf holds fun value => front ++ spelling value) := by
  rintro offset text ⟨first, second, equal, apart, frontSpelled, value, valueHolds, spelled⟩
  exact ⟨value, valueHolds, first, second, equal, apart, frontSpelled, spelled⟩

theorem anyOf_append_within (holds : α → Prop) (spelling : α → Spelling) (back : Spelling) :
    Within (anyOf holds spelling ++ back) (anyOf holds fun value => spelling value ++ back) := by
  rintro offset text ⟨first, second, equal, apart, ⟨value, valueHolds, spelled⟩, backSpelled⟩
  exact ⟨value, valueHolds, first, second, equal, apart, spelled, backSpelled⟩

end Spelling

/-! ## Beginnings between cursors -/

namespace Cursor

theorem Spells.mono {start stop : Cursor} {first second : Spelling}
    (spells : start.Spells first stop) (within : first.Within second) :
    start.Spells second stop := by
  rcases spells with ⟨text, reads, apart, spelled⟩
  exact ⟨text, reads, apart, within spelled⟩

theorem spells_anyOf_iff {start stop : Cursor} {holds : α → Prop} {spelling : α → Spelling} :
    start.Spells (.anyOf holds spelling) stop ↔
      ∃ value, holds value ∧ start.Spells (spelling value) stop := by
  simp only [Spelling.anyOf, spells_oneOf_iff, spells_provided_iff]

/-- What lies between two cursors begins a text of the spelling. -/
def Begins (start : Cursor) (spelling : Spelling) (stop : Cursor) : Prop :=
  ∃ text more, start.Reads text stop ∧ (text ≠ [] → spelling start.offset (text ++ more))

namespace Begins

theorem refl (cursor : Cursor) (spelling : Spelling) : cursor.Begins spelling cursor :=
  ⟨[], [], .refl cursor, fun notNil => absurd rfl notNil⟩

theorem of_spells {start stop : Cursor} {spelling : Spelling}
    (spells : start.Spells spelling stop) : start.Begins spelling stop := by
  rcases spells with ⟨text, reads, _, spelled⟩
  exact ⟨text, [], reads, fun _ => by rwa [List.append_nil]⟩

theorem mono {start stop : Cursor} {first second : Spelling} (begins : start.Begins first stop)
    (within : first.Within second) : start.Begins second stop := by
  rcases begins with ⟨text, more, reads, spelled⟩
  exact ⟨text, more, reads, fun notNil => within (spelled notNil)⟩

theorem append_right {start stop : Cursor} {front back : Spelling}
    (begins : start.Begins front stop) (continues : front.Continues back) :
    start.Begins (front ++ back) stop := by
  rcases begins with ⟨text, more, reads, spelled⟩
  by_cases empty : text = []
  · exact ⟨text, more, reads, fun notNil => absurd empty notNil⟩
  · rcases continues (spelled empty) with ⟨rest, backSpelled, apart⟩
    refine ⟨text, more ++ rest, reads, fun _ => ?_⟩
    exact ⟨text ++ more, rest, (List.append_assoc ..).symm, apart, spelled empty, backSpelled⟩

theorem append {start middle stop : Cursor} {front back : Spelling}
    (spells : start.Spells front middle) (begins : middle.Begins back stop)
    (continues : front.Continues back) : start.Begins (front ++ back) stop := by
  rcases begins with ⟨second, more, secondReads, secondSpelled⟩
  by_cases empty : second = []
  · obtain rfl := reads_nil_iff.mp (empty ▸ secondReads)
    exact (of_spells spells).append_right continues
  · rcases spells with ⟨first, firstReads, apart, firstSpelled⟩
    refine ⟨first ++ second, more, firstReads.trans secondReads, fun _ => ?_⟩
    refine ⟨first, second ++ more, List.append_assoc .., ?_, firstSpelled, ?_⟩
    · rw [secondReads.rest_eq] at apart
      have apartSecond := (Apart.append_right_iff.mp apart).1
      exact Apart.append_right_iff.mpr ⟨apartSecond, fun none => absurd none empty⟩
    · rw [← firstReads.offset_eq]
      exact secondSpelled empty

end Begins
end Cursor

/-! ## Behind trivia -/

namespace Grammar

theorem punctuated_trivia : trivia.Punctuated :=
  fun _ _ isTrivia => Trivia.last_of_isTrivia isTrivia

theorem punctuated_gap : gap.Punctuated :=
  fun _ _ isGap => Trivia.last_of_isTrivia isGap.1

theorem detached_trivia : trivia.Detached :=
  fun _ => ⟨[], .nil, nofun⟩

theorem detached_gap_append {back : Spelling} (possible : back.Possible) :
    (gap ++ back).Detached := by
  intro offset
  have isTrivia : IsTrivia ['\n'] := Trivia.isTrivia_of_piece (.blank rfl)
  rcases possible (offset + byteLength ['\n']) with ⟨text, spelled⟩
  refine ⟨['\n'] ++ text, ⟨['\n'], text, rfl, ?_, ⟨isTrivia, List.cons_ne_nil _ _⟩, spelled⟩, ?_⟩
  · exact .of_last (Trivia.last_of_isTrivia isTrivia)
  · rintro first ⟨rfl⟩
    rfl

theorem detached_trivia_append {back : Spelling} (possible : back.Possible) :
    (trivia ++ back).Detached :=
  (detached_gap_append possible).mono fun _ _ spelled => by
    rcases spelled with ⟨first, second, equal, apart, isGap, backSpelled⟩
    exact ⟨first, second, equal, apart, isGap.1, backSpelled⟩

theorem detached_sign_append {sign : Char} (notWord : isWordCharacter sign = false)
    {back : Spelling} (possible : back.Possible) : (Grammar.sign sign ++ back).Detached :=
  Spelling.detached_exactly_append (by simp [notWord]) (by simp [notWord])
    (List.cons_ne_nil _ _) possible

def anyIdentifier : Spelling :=
  .anyOf (fun name => IsIdentifier name.text.toList) .name

theorem possible_anyIdentifier : anyIdentifier.Possible := by
  intro offset
  have isIdentifier : IsIdentifier "x".toList := ⟨'x', [], rfl, rfl, nofun⟩
  exact ⟨"x".toList, ⟨"x", offset⟩, isIdentifier, rfl, rfl⟩

def anyPath : Spelling :=
  .anyOf (fun name => IsPath name.text.toList) .name

theorem isPath_of_isIdentifier {text : List Char} (isIdentifier : IsIdentifier text) :
    IsPath text :=
  ⟨[text], List.cons_ne_nil text [], by simpa using isIdentifier, rfl⟩

theorem possible_anyPath : anyPath.Possible :=
  possible_anyIdentifier.mono fun _ _ spelled => by
    rcases spelled with ⟨name, isIdentifier, spelled⟩
    exact ⟨name, isPath_of_isIdentifier isIdentifier, spelled⟩

end Grammar

/-- Trivia that is read is trivia of the grammar. Where the whole text ends in it, a line end may
have to be added, since a comment would go on otherwise. -/
theorem trivia_of_done {start stop : Cursor} (equal : trivia.run start = .done () stop) :
    ∃ text more, start.Reads text stop ∧ IsTrivia (text ++ more) ∧
      (stop.rest = [] ∨ more = []) := by
  rcases of_done_trivia equal with ⟨_, middle, spells, ⟨comment, commentReads, _, isOpen⟩, ends⟩
  rcases spells_trivia_iff.mp spells with ⟨text, reads, isTrivia⟩
  rcases ends with rfl | atEnd
  · exact ⟨text, [], reads, by rwa [List.append_nil], .inr rfl⟩
  · refine ⟨text ++ comment, ['\n'], reads.trans commentReads, ?_, .inl atEnd⟩
    rw [List.append_assoc]
    exact Trivia.isTrivia_append isTrivia (Grammar.isTrivia_of_isOpenComment isOpen)

/-- At the end of the whole text nothing more has been read, so the completion of what stands in
front can be put between. -/
theorem begins_behind {start middle stop : Cursor} {front back : Spelling} {text more : List Char}
    (reads : start.Reads text middle) (spelled : front start.offset (text ++ more))
    (ends : middle.rest = [] ∨ more = []) (punctuated : front.Punctuated)
    (begins : middle.Begins back stop) (possible : back.Possible) :
    start.Begins (front ++ back) stop := by
  rcases ends with atEnd | rfl
  · rcases begins with ⟨second, _, secondReads, _⟩
    have nothing : second = [] := by
      have equalRest := secondReads.rest_eq
      rw [atEnd, eq_comm, List.append_eq_nil_iff] at equalRest
      exact equalRest.1
    obtain rfl := Cursor.reads_nil_iff.mp (nothing ▸ secondReads)
    have begun : start.Begins front stop := ⟨text, more, reads, fun _ => spelled⟩
    exact begun.append_right (punctuated.continues possible)
  · rw [List.append_nil] at spelled
    have spells : start.Spells front middle :=
      ⟨text, reads, .of_last (punctuated spelled), spelled⟩
    exact .append spells begins (punctuated.continues possible)

theorem begins_behind_trivia {start middle stop : Cursor} {back : Spelling}
    (equal : trivia.run start = .done () middle) (begins : middle.Begins back stop)
    (possible : back.Possible) : start.Begins (Grammar.trivia ++ back) stop := by
  rcases trivia_of_done equal with ⟨text, more, reads, isTrivia, ends⟩
  exact begins_behind reads isTrivia ends Grammar.punctuated_trivia begins possible

theorem begins_behind_gap {start middle stop : Cursor} {back : Spelling}
    (equal : gap.run start = .done () middle) (begins : middle.Begins back stop)
    (possible : back.Possible) : start.Begins (Grammar.gap ++ back) stop := by
  have present : ¬ Trivia.Absent start.rest := by
    intro absent
    rcases rejects_gap absent with ⟨failure, rejected⟩
    rw [equal] at rejected
    cases rejected
  rw [run_gap present] at equal
  rcases trivia_of_done equal with ⟨text, more, reads, isTrivia, ends⟩
  have notNil : text ++ more ≠ [] := by
    intro nothing
    rw [List.append_eq_nil_iff] at nothing
    obtain rfl := Cursor.reads_nil_iff.mp (nothing.1 ▸ reads)
    exact present (of_done_trivia equal).1
  exact begins_behind reads ⟨isTrivia, notNil⟩ ends Grammar.punctuated_gap begins possible

end PermissionTypes.Schema
