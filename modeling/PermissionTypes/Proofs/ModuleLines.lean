import Mathlib.Data.List.Basic
import PermissionTypes.ClientModule
import PermissionTypes.Proofs.PermissionMapReading
import PermissionTypes.Proofs.Schema.Grammar

/-! The lines of a generated module. Whatever the names of types and permissions are, each type has
one line, and what it declares does not reach beyond this line. -/

namespace PermissionTypes

open Schema.Caveat (InLiteral)

namespace Text

/-! ## Texts that keep to their line -/

def quotes : List Char :=
  ['"', '\'', '\x60']

def isUnquoted (character : Char) : Bool :=
  !quotes.contains character && decide (0x20 ≤ character.toNat)

theorem printable_of_belongs {belongs : Char → Bool}
    (noControl : ∀ value < 0x20, belongs (Char.ofNat value) = false) {character : Char}
    (holds : belongs character = true) : 0x20 ≤ character.toNat := by
  apply Nat.le_of_not_lt
  intro control
  have outside := noControl character.toNat control
  rw [Char.ofNat_toNat, holds] at outside
  cases outside

theorem isUnquoted_iff {character : Char} :
    isUnquoted character = true ↔ character ∉ quotes ∧ 0x20 ≤ character.toNat := by
  simp [isUnquoted]

/-- The string literals of a text are closed in the text. Between them no literal is opened. -/
inductive LiteralsClose : List Char → Prop
  | nil : LiteralsClose []
  | plain {character : Char} {more : List Char} (notQuote : character ∉ quotes)
      (goesOn : LiteralsClose more) : LiteralsClose (character :: more)
  | literal {inside more : List Char} (inLiteral : InLiteral '"' inside)
      (goesOn : LiteralsClose more) : LiteralsClose ('"' :: (inside ++ '"' :: more))

theorem LiteralsClose.append {front back : List Char} (first : LiteralsClose front)
    (second : LiteralsClose back) : LiteralsClose (front ++ back) := by
  induction first with
  | nil => exact second
  | plain notQuote _ induction => exact .plain notQuote induction
  | literal inLiteral _ induction =>
      rw [List.cons_append, List.append_assoc, List.cons_append]
      exact .literal inLiteral induction

/-- Nothing in the text ends the line, and nothing in it goes on behind its end. -/
structure KeepsToLine (text : List Char) : Prop where
  closes : LiteralsClose text
  printable : ∀ character ∈ text, 0x20 ≤ character.toNat

namespace KeepsToLine

theorem nil : KeepsToLine [] where
  closes := .nil
  printable := by simp

theorem append {front back : List Char} (first : KeepsToLine front) (second : KeepsToLine back) :
    KeepsToLine (front ++ back) where
  closes := first.closes.append second.closes
  printable := List.forall_mem_append.mpr ⟨first.printable, second.printable⟩

theorem plain {text : List Char} (all : text.all isUnquoted = true) : KeepsToLine text where
  closes := by
    induction text with
    | nil => exact .nil
    | cons character text induction =>
        rw [List.all_cons, Bool.and_eq_true, isUnquoted_iff] at all
        exact .plain all.1.1 (induction all.2)
  printable character member := (isUnquoted_iff.mp (List.all_eq_true.mp all character member)).2

theorem flatMap {part : α → List Char} {values : List α}
    (each : ∀ value ∈ values, KeepsToLine (part value)) : KeepsToLine (values.flatMap part) := by
  induction values with
  | nil => exact nil
  | cons value values induction =>
      rcases List.forall_mem_cons.mp each with ⟨here, behind⟩
      exact here.append (induction behind)

theorem newline_not_mem {text : List Char} (keeps : KeepsToLine text) : '\n' ∉ text :=
  fun member => absurd (keeps.printable '\n' member) (by decide)

end KeepsToLine

/-! ## Literals -/

def IsPlain (character : Char) : Prop :=
  character ≠ '"' ∧ character ≠ '\\' ∧ 0x20 ≤ character.toNat

instance : DecidablePred IsPlain :=
  fun _ => inferInstanceAs (Decidable (_ ∧ _ ∧ _))

theorem isPlain_hexDigit : ∀ value < 16, IsPlain (hexDigit value) := by
  decide

/-- What is not written as it is begins with a backslash, and only the character behind that can be
a quote or a backslash. -/
theorem escape_shape (found : Char) :
    (∃ name more, escape found = '\\' :: name :: more ∧ 0x20 ≤ name.toNat ∧
      ∀ character ∈ more, IsPlain character) ∨
      escape found = [found] ∧ IsPlain found := by
  have named {name : Char} (printable : 0x20 ≤ name.toNat) (equal : escape found = ['\\', name]) :
      ∃ name more, escape found = '\\' :: name :: more ∧ 0x20 ≤ name.toNat ∧
        ∀ character ∈ more, IsPlain character :=
    ⟨name, [], equal, printable, by simp⟩
  by_cases isNamed : found ∈ PermissionMap.namedCharacters
  · simp only [PermissionMap.namedCharacters, List.mem_cons, List.not_mem_nil, or_false] at isNamed
    rcases isNamed with rfl | rfl | rfl | rfl | rfl | rfl | rfl <;>
      exact .inl (named (by decide) rfl)
  · simp only [PermissionMap.namedCharacters, List.mem_cons, List.not_mem_nil, or_false, not_or]
      at isNamed
    by_cases control : found.toNat < 0x20
    · have high := isPlain_hexDigit (found.toNat / 16) (by omega)
      have low := isPlain_hexDigit (found.toNat % 16) (by omega)
      refine .inl ⟨'u', ['0', '0', hexDigit (found.toNat / 16), hexDigit (found.toNat % 16)],
        by simp [escape, isNamed, control], by decide, ?_⟩
      have zero : IsPlain '0' := by decide
      simp [zero, high, low]
    · exact .inr ⟨by simp [escape, isNamed, control], isNamed.1, isNamed.2.1, by omega⟩

theorem inLiteral_append_of_plain {front back : List Char}
    (plain : ∀ character ∈ front, IsPlain character) (goesOn : InLiteral '"' back) :
    InLiteral '"' (front ++ back) := by
  induction front with
  | nil => exact goesOn
  | cons character front induction =>
      rcases List.forall_mem_cons.mp plain with ⟨here, behind⟩
      exact .plain here.1 here.2.1 (induction behind)

/-- An escaped text does not end the literal that it stands in. -/
theorem inLiteral_escaped (text : List Char) : InLiteral '"' (text.flatMap escape) := by
  induction text with
  | nil => exact .nil
  | cons character text induction =>
      rw [List.flatMap_cons]
      rcases escape_shape character with ⟨name, more, equal, _, plain⟩ | ⟨equal, plain⟩
      · rw [equal]
        exact .escaped (inLiteral_append_of_plain plain induction)
      · rw [equal]
        exact .plain plain.1 plain.2.1 induction

theorem printable_escape (found : Char) : ∀ character ∈ escape found, 0x20 ≤ character.toNat := by
  rcases escape_shape found with ⟨name, more, equal, printable, plain⟩ | ⟨equal, plain⟩
  · rw [equal, List.forall_mem_cons, List.forall_mem_cons]
    exact ⟨by decide, printable, fun character member => (plain character member).2.2⟩
  · rw [equal, List.forall_mem_singleton]
    exact plain.2.2

theorem keepsToLine_quote (text : List Char) : KeepsToLine (quote text) where
  closes := .literal (inLiteral_escaped text) .nil
  printable := by
    rw [quote, List.cons_append, List.forall_mem_cons, List.forall_mem_append,
      List.forall_mem_singleton]
    refine ⟨by decide, ?_, by decide⟩
    intro character member
    rcases List.mem_flatMap.mp member with ⟨found, _, inEscape⟩
    exact printable_escape found character inEscape

theorem join_eq_intercalate (separator : List Char) (pieces : List (List Char)) :
    join separator pieces = separator.intercalate pieces := by
  induction pieces with
  | nil => rfl
  | cons piece pieces induction =>
      cases pieces with
      | nil => simp [join, List.intercalate]
      | cons next pieces =>
          rw [join, induction]
          simp [List.intercalate]

theorem separator_append_join {separator : List Char} {pieces : List (List Char)}
    (notNil : pieces ≠ []) :
    separator ++ join separator pieces = pieces.flatMap (separator ++ ·) := by
  cases pieces with
  | nil => exact absurd rfl notNil
  | cons first more =>
      rw [PermissionMap.Reading.join_cons, List.flatMap_cons, List.append_assoc]

end Text

open Text

/-! ## Entries -/

namespace PermissionEntry

theorem isUnquoted_of_isKeyCharacter {character : Char}
    (inKey : isKeyCharacter character = true) : isUnquoted character = true := by
  refine isUnquoted_iff.mpr ⟨?_, printable_of_belongs (by decide) inKey⟩
  simp only [quotes, List.mem_cons, List.not_mem_nil, or_false]
  rintro (rfl | rfl | rfl) <;> cases inKey

theorem isKeyCharacter_of_isKeyStart {character : Char} (starts : isKeyStart character = true) :
    isKeyCharacter character = true := by
  simp only [isKeyStart, Bool.or_eq_true] at starts
  simp only [isKeyCharacter, Char.isAlphanum, Bool.or_eq_true]
  rcases starts with (alpha | underscore) | dollar
  · exact .inl (.inl (.inl alpha))
  · exact .inl (.inr underscore)
  · exact .inr dollar

theorem keepsToLine_key (name : List Char) : KeepsToLine (key name) := by
  rw [key]
  split
  · rename_i plainKey
    cases name with
    | nil => cases plainKey
    | cons first more =>
        rw [isPlainKey, Bool.and_eq_true, List.all_eq_true] at plainKey
        apply KeepsToLine.plain
        rw [List.all_cons, Bool.and_eq_true, List.all_eq_true]
        exact ⟨isUnquoted_of_isKeyCharacter (isKeyCharacter_of_isKeyStart plainKey.1),
          fun character member => isUnquoted_of_isKeyCharacter (plainKey.2 character member)⟩
  · exact keepsToLine_quote name

theorem keepsToLine_alternatives (permissions : List String) :
    KeepsToLine (alternatives permissions) := by
  cases permissions with
  | nil => exact keepsToLine_quote []
  | cons first more =>
      rw [alternatives, List.map_cons, PermissionMap.Reading.join_cons, List.flatMap_map]
      · apply (keepsToLine_quote first.toList).append
        apply KeepsToLine.flatMap
        intro name _
        exact (KeepsToLine.plain (by decide)).append (keepsToLine_quote name.toList)
      · exact List.cons_ne_nil first more

theorem keepsToLine_characters (entry : PermissionEntry) : KeepsToLine entry.characters :=
  (((keepsToLine_key _).append (.plain (by decide))).append
    (keepsToLine_alternatives _)).append (.plain (by decide))

end PermissionEntry

/-! ## Lines -/

namespace Text

theorem holds_of_literal (holds : List Char → Prop) {text : String} {characters : List Char}
    (equal : text = String.ofList characters) (found : holds characters) : holds text.toList := by
  rwa [equal, String.toList_ofList]

def places (beginning : String) (lines : List (List Char)) : List Nat :=
  lines.findIdxs beginning.toList.isPrefixOf

def isInnerStart (character : Char) : Bool :=
  character == ' ' || character == '}'

/-- A line that goes on with what a line before it has begun. -/
def IsInner (line : List Char) : Prop :=
  '\n' ∉ line ∧ line.head?.all isInnerStart = true

instance : DecidablePred IsInner :=
  fun _ => inferInstanceAs (Decidable (_ ∧ _))

def beginsOutside (beginning : String) : Bool :=
  beginning.toList.head?.any (!isInnerStart ·)

theorem places_append (beginning : String) (front back : List (List Char)) :
    places beginning (front ++ back) =
      places beginning front ++ (places beginning back).map (· + front.length) := by
  have shifted : List.findIdxs beginning.toList.isPrefixOf back front.length =
      (places beginning back).map (· + front.length) := List.findIdxs_start
  rw [places, List.findIdxs_append, Nat.zero_add, shifted]
  rfl

theorem places_of_inner {beginning : String} (outside : beginsOutside beginning = true)
    {lines : List (List Char)} (inner : ∀ line ∈ lines, IsInner line) :
    places beginning lines = [] := by
  refine List.findIdxs_eq_nil_iff.mpr fun line member => ?_
  rw [Bool.eq_false_iff, ne_eq, List.isPrefixOf_iff_prefix]
  rintro ⟨more, rfl⟩
  have starts := (inner _ member).2
  rw [beginsOutside] at outside
  cases equal : beginning.toList with
  | nil =>
      rw [equal] at outside
      cases outside
  | cons first rest =>
      rw [equal] at outside starts
      simp_all

end Text

namespace ClientModule

def linesBefore : List (List Char) :=
  [importLine.toList, [], PermissionMap.header.toList]

def typeLine (type : ObjectType) : List Char :=
  ' ' :: ' ' :: (PermissionEntry.ofType type).characters

def firstLinesBehind : List (List Char) :=
  [['}'], [], resourceTypeLine.toList, []] ++ (requestClass.take 1).map String.toList

def linesBehind : List (List Char) :=
  [['}'], [], resourceTypeLine.toList, []] ++ requestClass.map String.toList

theorem linesBehind_eq_append :
    linesBehind = firstLinesBehind ++ (requestClass.drop 1).map String.toList := by
  rw [firstLinesBehind, List.append_assoc, ← List.map_append, List.take_append_drop, linesBehind]

theorem text_eq_join (types : List ObjectType) :
    (text types).toList = join ['\n'] (linesBefore ++ types.map typeLine ++ linesBehind) := by
  have entries : (PermissionMap.ofTypes types).entries.flatMap PermissionMap.entryLine =
      (types.map typeLine).flatMap (['\n'] ++ ·) := by
    rw [PermissionMap.ofTypes, List.flatMap_map, List.flatMap_map]
    rfl
  have classLines : ['\n'] ++ ("\n".intercalate requestClass).toList =
      (requestClass.map String.toList).flatMap (['\n'] ++ ·) := by
    rw [String.toList_intercalate, ← join_eq_intercalate]
    exact separator_append_join (List.cons_ne_nil _ _)
  rw [linesBefore, linesBehind, List.append_assoc, List.cons_append,
    PermissionMap.Reading.join_cons]
  simp only [List.flatMap_append, ← entries, ← classLines]
  simp [text, PermissionMap.describe, PermissionMap.characters]

theorem isInner_typeLine (type : ObjectType) : IsInner (typeLine type) := by
  constructor
  · have keeps := PermissionEntry.keepsToLine_characters (.ofType type)
    simp [typeLine, keeps.newline_not_mem]
  · rfl

theorem isInner_requestClass : ∀ line ∈ (requestClass.drop 1).map String.toList, IsInner line := by
  simp only [requestClass, List.drop_one, List.tail_cons, List.forall_mem_map, List.forall_mem_cons]
  -- One line at a time: the kernel is slow to list the characters of a literal.
  repeat refine ⟨holds_of_literal IsInner rfl (by decide), ?_⟩
  exact List.forall_mem_nil _

theorem newline_not_mem_lines (types : List ObjectType) :
    ∀ line ∈ linesBefore ++ types.map typeLine ++ linesBehind, '\n' ∉ line := by
  rw [linesBehind_eq_append]
  simp only [List.forall_mem_append]
  refine ⟨⟨by decide, ?_⟩, by decide, fun line member => (isInner_requestClass line member).1⟩
  rw [List.forall_mem_map]
  exact fun type _ => (isInner_typeLine type).1

/-! ## Sections -/

def sections : List String :=
  ["import ", "type ResourcePermissionMap = ", "type ResourceType = ",
    "export class PermissionRequest<"]

theorem outside_sections : ∀ beginning ∈ sections, beginsOutside beginning = true := by
  decide

theorem places_sections :
    sections.map (fun beginning =>
      (places beginning linesBefore, places beginning firstLinesBehind)) =
      [([0], []), ([2], []), ([], [2]), ([], [4])] := by
  decide

/-- The lines of types and those of the class do not begin a section. -/
theorem places_lines {beginning : String} (outside : beginsOutside beginning = true)
    (types : List ObjectType) :
    places beginning (linesBefore ++ types.map typeLine ++ linesBehind) =
      places beginning linesBefore ++
        (places beginning firstLinesBehind).map (· + (types.length + 3)) := by
  have ofTypes : places beginning (types.map typeLine) = [] :=
    places_of_inner outside (List.forall_mem_map.mpr fun type _ => isInner_typeLine type)
  have ofClass := places_of_inner outside isInner_requestClass
  have behind : (linesBefore ++ types.map typeLine).length = types.length + 3 := by
    rw [List.length_append, List.length_map, Nat.add_comm]
    rfl
  rw [linesBehind_eq_append, places_append, places_append, places_append, ofTypes, ofClass, behind,
    List.map_nil, List.append_nil, List.map_nil, List.append_nil]

/-- The lines of a module. Names of types and permissions reach no further than the line of the
type, so each section begins at one place. -/
theorem split_text (types : List ObjectType) :
    split '\n' (text types).toList = linesBefore ++ types.map typeLine ++ linesBehind ∧
      (∀ type, typeLine type = [' ', ' '] ++ PermissionEntry.key type.name.toList ++ [':', ' '] ++
          PermissionEntry.alternatives type.permissions ++ [','] ∧
        KeepsToLine (typeLine type)) ∧
      sections.map (places · (split '\n' (text types).toList)) =
        [[0], [2], [types.length + 5], [types.length + 7]] := by
  have lines : split '\n' (text types).toList =
      linesBefore ++ types.map typeLine ++ linesBehind := by
    rw [text_eq_join]
    exact split_join (by simp [linesBefore]) (newline_not_mem_lines types)
  refine ⟨lines, ?_, ?_⟩
  · intro type
    have blanks : KeepsToLine [' ', ' '] := .plain (by decide)
    exact ⟨by simp [typeLine, PermissionEntry.characters, PermissionEntry.ofType],
      blanks.append (PermissionEntry.keepsToLine_characters _)⟩
  · have found := congrArg (List.map fun pair : List Nat × List Nat =>
      pair.1 ++ pair.2.map (· + (types.length + 3))) places_sections
    rw [List.map_map] at found
    rw [lines, List.map_congr_left fun beginning member =>
      places_lines (outside_sections beginning member) types]
    refine found.trans ?_
    simp [Nat.add_comm, Nat.add_left_comm]

example : typeLine ((ObjectType.ofName "\x7d;\nimport ").withPermission "\", \x60$\x7b\n") =
    "  \"\x7d;\\nimport \": \"\\\", \x60$\x7b\\n\",".toList := by
  decide

end ClientModule
end PermissionTypes
