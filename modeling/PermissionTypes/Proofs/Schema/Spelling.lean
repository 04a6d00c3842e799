import PermissionTypes.Schema.Cursor
import PermissionTypes.Schema.Word

/-! Spellings: which texts can stand for a part of a schema, given the number of bytes before them.
The place matters because names know theirs. Spellings are put together with `++`, and words of
neighbouring parts never run together. -/

namespace PermissionTypes.Schema

open Text (byteLength byteLength_append)

/-! ## Neighbouring texts -/

/-- No word ends where the first text ends and goes on in the second one. -/
def Apart (front back : List Char) : Prop :=
  ∀ last ∈ front.getLast?, ∀ first ∈ back.head?,
    isWordCharacter last = true → isWordCharacter first = false

namespace Apart

theorem nil_left (back : List Char) : Apart [] back := by
  intro last member
  cases member

theorem nil_right (front : List Char) : Apart front [] := by
  intro last _ first member
  cases member

theorem of_last {front back : List Char}
    (punctuated : ∀ last ∈ front.getLast?, isWordCharacter last = false) : Apart front back := by
  intro last lastMember first _ word
  rw [punctuated last lastMember] at word
  cases word

theorem of_head {front back : List Char}
    (punctuated : ∀ first ∈ back.head?, isWordCharacter first = false) : Apart front back :=
  fun _ _ first firstMember _ => punctuated first firstMember

theorem append_left_iff {front middle back : List Char} :
    Apart (front ++ middle) back ↔ Apart middle back ∧ (middle = [] → Apart front back) := by
  cases middle with
  | nil => simp [nil_left]
  | cons character middle => simp [Apart, List.getLast?_append, List.getLast?_cons]

theorem append_right_iff {front middle back : List Char} :
    Apart front (middle ++ back) ↔ Apart front middle ∧ (middle = [] → Apart front back) := by
  cases middle with
  | nil => simp [nil_right]
  | cons character middle => simp [Apart]

end Apart

/-! ## Spellings -/

def Spelling : Type :=
  Nat → List Char → Prop

namespace Spelling

def never : Spelling :=
  fun _ _ => False

def exactly (text : List Char) : Spelling :=
  fun _ written => written = text

def language (belongs : List Char → Prop) : Spelling :=
  fun _ written => belongs written

def name (name : Name) : Spelling :=
  fun offset written => name.offset = offset ∧ written = name.text.toList

def either (first second : Spelling) : Spelling :=
  fun offset written => first offset written ∨ second offset written

def oneOf (family : ι → Spelling) : Spelling :=
  fun offset written => ∃ index, family index offset written

def provided (condition : Prop) (spelling : Spelling) : Spelling :=
  fun offset written => condition ∧ spelling offset written

protected def append (front back : Spelling) : Spelling :=
  fun offset written => ∃ first second, written = first ++ second ∧ Apart first second ∧
    front offset first ∧ back (offset + byteLength first) second

instance : Append Spelling where
  append := Spelling.append

def each (spelling : α → Spelling) : List α → Spelling
  | [] => exactly []
  | value :: values => spelling value ++ each spelling values

def separated (separator : Spelling) (spelling : α → Spelling) : List α → Spelling
  | [] => exactly []
  | value :: values => spelling value ++ each (fun value => separator ++ spelling value) values

/-! ### Places -/

/-- Whether the texts of a spelling are the same at all places. -/
def Anywhere (spelling : Spelling) : Prop :=
  ∀ ⦃first second text⦄, spelling first text → spelling second text

namespace Anywhere

theorem never : Anywhere never :=
  fun _ _ _ impossible => impossible

theorem exactly (text : List Char) : Anywhere (exactly text) :=
  fun _ _ _ equal => equal

theorem language (belongs : List Char → Prop) : Anywhere (language belongs) :=
  fun _ _ _ holds => holds

theorem either {first second : Spelling} (firstAnywhere : first.Anywhere)
    (secondAnywhere : second.Anywhere) : Anywhere (either first second) := by
  rintro _ _ _ (spelled | spelled)
  · exact .inl (firstAnywhere spelled)
  · exact .inr (secondAnywhere spelled)

theorem oneOf {family : ι → Spelling} (anywhere : ∀ index, (family index).Anywhere) :
    Anywhere (oneOf family) := by
  rintro _ _ _ ⟨index, spelled⟩
  exact ⟨index, anywhere index spelled⟩

theorem append {front back : Spelling} (frontAnywhere : front.Anywhere)
    (backAnywhere : back.Anywhere) : Anywhere (front ++ back) := by
  rintro _ _ _ ⟨first, second, rfl, apart, firstSpelled, secondSpelled⟩
  exact ⟨first, second, rfl, apart, frontAnywhere firstSpelled, backAnywhere secondSpelled⟩

theorem each {spelling : α → Spelling} (anywhere : ∀ value, (spelling value).Anywhere)
    (values : List α) : Anywhere (each spelling values) := by
  induction values with
  | nil => exact exactly []
  | cons value values induction => exact (anywhere value).append induction

theorem separated {separator : Spelling} {spelling : α → Spelling}
    (separatorAnywhere : separator.Anywhere) (anywhere : ∀ value, (spelling value).Anywhere)
    (values : List α) : Anywhere (separated separator spelling values) := by
  cases values with
  | nil => exact exactly []
  | cons value values =>
      exact (anywhere value).append
        (each (fun next => separatorAnywhere.append (anywhere next)) values)

end Anywhere
end Spelling

/-! ## Between cursors -/

namespace Cursor

/-- The text between two cursors is spelled in a certain way, and no word goes on behind it. -/
def Spells (start : Cursor) (spelling : Spelling) (stop : Cursor) : Prop :=
  ∃ text, start.Reads text stop ∧ Apart text stop.rest ∧ spelling start.offset text

theorem reads_nil_iff {start stop : Cursor} : start.Reads [] stop ↔ stop = start := by
  constructor
  · intro reads
    cases start
    cases stop
    have rest := reads.rest_eq
    have offset := reads.offset_eq
    simp_all
  · rintro rfl
    exact .refl stop

theorem reads_append_iff {start stop : Cursor} {front back : List Char} :
    start.Reads (front ++ back) stop ↔
      ∃ middle, start.Reads front middle ∧ middle.Reads back stop := by
  constructor
  · intro reads
    refine ⟨start.advance front (back ++ stop.rest), reads_advance ?_, ⟨rfl, ?_⟩⟩
    · rw [reads.rest_eq, List.append_assoc]
    · rw [reads.offset_eq, byteLength_append, advance, Nat.add_assoc]
  · rintro ⟨middle, first, second⟩
    exact first.trans second

theorem Reads.moves {start stop : Cursor} {text : List Char} (reads : start.Reads text stop)
    (notNil : text ≠ []) : start.offset < stop.offset := by
  have positive : byteLength text ≠ 0 := mt Text.byteLength_eq_zero_iff.mp notNil
  rw [reads.offset_eq]
  omega

theorem Reaches.offset_le {start stop : Cursor} (reaches : start.Reaches stop) :
    start.offset ≤ stop.offset := by
  rcases reaches with ⟨text, reads⟩
  rw [reads.offset_eq]
  omega

@[simp] theorem spells_exactly_iff {start stop : Cursor} {text : List Char} :
    start.Spells (.exactly text) stop ↔ start.Reads text stop ∧ Apart text stop.rest := by
  simp [Spells, Spelling.exactly]

theorem Reads.spells {start stop : Cursor} {text : List Char} (reads : start.Reads text stop)
    (punctuated : text.getLast?.any isWordCharacter = false) :
    start.Spells (.exactly text) stop := by
  refine spells_exactly_iff.mpr ⟨reads, .of_last fun last member => ?_⟩
  rw [Option.mem_def] at member
  simpa [member] using punctuated

theorem spells_exactly_nil_iff {start stop : Cursor} :
    start.Spells (.exactly []) stop ↔ stop = start := by
  simp [reads_nil_iff, Apart.nil_left]

theorem spells_name_iff {start stop : Cursor} {name : Name} :
    start.Spells (.name name) stop ↔
      name.offset = start.offset ∧ start.Spells (.exactly name.text.toList) stop := by
  simp only [Spells, Spelling.name, Spelling.exactly]
  constructor
  · rintro ⟨text, reads, apart, offset, equal⟩
    exact ⟨offset, text, reads, apart, equal⟩
  · rintro ⟨offset, text, reads, apart, equal⟩
    exact ⟨text, reads, apart, offset, equal⟩

theorem not_spells_never {start stop : Cursor} : ¬ start.Spells .never stop := by
  rintro ⟨text, _, _, impossible⟩
  exact impossible

theorem spells_either_iff {start stop : Cursor} {first second : Spelling} :
    start.Spells (.either first second) stop ↔
      start.Spells first stop ∨ start.Spells second stop := by
  constructor
  · rintro ⟨text, reads, apart, spelled | spelled⟩
    · exact .inl ⟨text, reads, apart, spelled⟩
    · exact .inr ⟨text, reads, apart, spelled⟩
  · rintro (⟨text, reads, apart, spelled⟩ | ⟨text, reads, apart, spelled⟩)
    · exact ⟨text, reads, apart, .inl spelled⟩
    · exact ⟨text, reads, apart, .inr spelled⟩

theorem spells_oneOf_iff {start stop : Cursor} {family : ι → Spelling} :
    start.Spells (.oneOf family) stop ↔ ∃ index, start.Spells (family index) stop := by
  constructor
  · rintro ⟨text, reads, apart, index, spelled⟩
    exact ⟨index, text, reads, apart, spelled⟩
  · rintro ⟨index, text, reads, apart, spelled⟩
    exact ⟨text, reads, apart, index, spelled⟩

theorem spells_provided_iff {start stop : Cursor} {condition : Prop} {spelling : Spelling} :
    start.Spells (.provided condition spelling) stop ↔
      condition ∧ start.Spells spelling stop := by
  constructor
  · rintro ⟨text, reads, apart, holds, spelled⟩
    exact ⟨holds, text, reads, apart, spelled⟩
  · rintro ⟨holds, text, reads, apart, spelled⟩
    exact ⟨text, reads, apart, holds, spelled⟩

/-- Two spellings meet at a cursor. Whether words run together can be seen at each of the two
alone, also where one of the texts is empty. -/
theorem spells_append_iff {start stop : Cursor} {front back : Spelling} :
    start.Spells (front ++ back) stop ↔
      ∃ middle, start.Spells front middle ∧ middle.Spells back stop := by
  constructor
  · rintro ⟨text, reads, apart, first, second, rfl, between, spelledFirst, spelledSecond⟩
    rcases reads_append_iff.mp reads with ⟨middle, readsFirst, readsSecond⟩
    have ends := Apart.append_left_iff.mp apart
    refine ⟨middle, ⟨first, readsFirst, ?_, spelledFirst⟩, second, readsSecond, ends.1, ?_⟩
    · rw [readsSecond.rest_eq]
      exact Apart.append_right_iff.mpr ⟨between, ends.2⟩
    · rwa [readsFirst.offset_eq]
  · rintro ⟨middle, ⟨first, readsFirst, apartFirst, spelledFirst⟩,
      second, readsSecond, apartSecond, spelledSecond⟩
    rw [readsSecond.rest_eq] at apartFirst
    rw [readsFirst.offset_eq] at spelledSecond
    have meets := Apart.append_right_iff.mp apartFirst
    exact ⟨first ++ second, readsFirst.trans readsSecond,
      Apart.append_left_iff.mpr ⟨apartSecond, meets.2⟩,
      first, second, rfl, meets.1, spelledFirst, spelledSecond⟩

theorem spells_exactly_append_iff {start stop : Cursor} {front back : List Char}
    (apart : Apart front back) :
    start.Spells (.exactly (front ++ back)) stop ↔
      start.Spells (.exactly front ++ .exactly back) stop := by
  rw [spells_append_iff]
  simp only [spells_exactly_iff]
  constructor
  · rintro ⟨reads, apartBehind⟩
    rcases reads_append_iff.mp reads with ⟨middle, readsFirst, readsSecond⟩
    have ends := Apart.append_left_iff.mp apartBehind
    refine ⟨middle, ⟨readsFirst, ?_⟩, readsSecond, ends.1⟩
    rw [readsSecond.rest_eq]
    exact Apart.append_right_iff.mpr ⟨apart, ends.2⟩
  · rintro ⟨middle, ⟨readsFirst, apartFirst⟩, readsSecond, apartSecond⟩
    rw [readsSecond.rest_eq] at apartFirst
    exact ⟨readsFirst.trans readsSecond,
      Apart.append_left_iff.mpr ⟨apartSecond, (Apart.append_right_iff.mp apartFirst).2⟩⟩

namespace Spells

theorem append {start middle stop : Cursor} {front back : Spelling}
    (first : start.Spells front middle) (second : middle.Spells back stop) :
    start.Spells (front ++ back) stop :=
  spells_append_iff.mpr ⟨middle, first, second⟩

theorem reaches {start stop : Cursor} {spelling : Spelling}
    (spells : start.Spells spelling stop) : start.Reaches stop := by
  rcases spells with ⟨text, reads, _⟩
  exact ⟨text, reads⟩

theorem moves {start stop : Cursor} {text : List Char} (spells : start.Spells (.exactly text) stop)
    (notNil : text ≠ []) : start.offset < stop.offset :=
  (spells_exactly_iff.mp spells).1.moves notNil

end Spells
end Cursor
end PermissionTypes.Schema
