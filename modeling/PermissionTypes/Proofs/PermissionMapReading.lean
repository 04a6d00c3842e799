import PermissionTypes.PermissionMap
import PermissionTypes.Proofs.Schema.Running

/-! A permission map can be read back from its text. The reader is built from the parsers that read
schemas. -/

namespace PermissionTypes.PermissionMap

open Schema (Cursor Parser)
open Schema.Parser
open Text (escape hexDigit quote join)

/-! ## Literals -/

def hexValue (digit : Char) : Nat :=
  if digit.toNat < 'a'.toNat then digit.toNat - '0'.toNat else digit.toNat - 'a'.toNat + 10

def unescape (name : Char) : Char :=
  if name = 'b' then '\x08'
  else if name = 'f' then '\x0c'
  else if name = 'n' then '\n'
  else if name = 'r' then '\r'
  else if name = 't' then '\t'
  else name

def anyCharacter : Parser Char :=
  oneOf fun _ => true

def escaped : Parser Char :=
  (do
    exactly ['u', '0', '0']
    let high ← anyCharacter
    let low ← anyCharacter
    pure (Char.ofNat (16 * hexValue high + hexValue low))) <|>
  (do
    let name ← anyCharacter
    pure (unescape name))

def literalCharacter : Parser Char :=
  (do
    character '\\'
    escaped) <|>
  oneOf fun found => found != '"'

def literal : Parser (List Char) := do
  character '"'
  let text ← many literalCharacter
  character '"'
  pure text

theorem hexValue_hexDigit : ∀ value < 16, hexValue (hexDigit value) = value := by
  decide

theorem unescape_control : ∀ value < 32,
    Char.ofNat (16 * hexValue (hexDigit (value / 16)) + hexValue (hexDigit (value % 16))) =
      Char.ofNat value := by
  intro value small
  rw [hexValue_hexDigit (value / 16) (by omega), hexValue_hexDigit (value % 16) (by omega),
    Nat.div_add_mod]

def namedCharacters : List Char :=
  ['"', '\\', '\x08', '\x0c', '\n', '\r', '\t']

theorem escape_of_named {found : Char} (named : found ∈ namedCharacters) :
    ∃ name, escape found = ['\\', name] ∧ name ≠ 'u' ∧ unescape name = found := by
  simp only [namedCharacters, List.mem_cons, List.not_mem_nil, or_false] at named
  rcases named with rfl | rfl | rfl | rfl | rfl | rfl | rfl
  · exact ⟨'"', rfl, by decide, rfl⟩
  · exact ⟨'\\', rfl, by decide, rfl⟩
  · exact ⟨'b', rfl, by decide, rfl⟩
  · exact ⟨'f', rfl, by decide, rfl⟩
  · exact ⟨'n', rfl, by decide, rfl⟩
  · exact ⟨'r', rfl, by decide, rfl⟩
  · exact ⟨'t', rfl, by decide, rfl⟩

theorem escape_cases (found : Char) :
    (∃ name, escape found = ['\\', name] ∧ name ≠ 'u' ∧ unescape name = found) ∨
      (∃ high low, escape found = ['\\', 'u', '0', '0', high, low] ∧
        Char.ofNat (16 * hexValue high + hexValue low) = found) ∨
      escape found = [found] ∧ found ≠ '\\' ∧ found ≠ '"' := by
  by_cases named : found ∈ namedCharacters
  · exact .inl (escape_of_named named)
  · simp only [namedCharacters, List.mem_cons, List.not_mem_nil, or_false, not_or] at named
    rcases named with ⟨notQuote, notBackslash, others⟩
    by_cases control : found.toNat < 0x20
    · have value := unescape_control found.toNat control
      rw [Char.ofNat_toNat] at value
      refine .inr (.inl ⟨_, _, ?_, value⟩)
      simp [escape, notQuote, notBackslash, others, control]
    · refine .inr (.inr ⟨?_, notBackslash, notQuote⟩)
      simp only [escape, notQuote, notBackslash, others, control, if_false]

theorem run_anyCharacter {start stop : Cursor} {found : Char} (reads : start.Reads [found] stop) :
    anyCharacter.run start = .done found stop :=
  done_oneOf_iff.mpr ⟨rfl, reads⟩

theorem run_literalCharacter {start stop : Cursor} {found : Char}
    (reads : start.Reads (escape found) stop) :
    literalCharacter.run start = .done found stop := by
  rcases escape_cases found with
    ⟨name, equal, notCode, value⟩ | ⟨high, low, equal, value⟩ | ⟨equal, notBackslash, notQuote⟩
  · rw [equal, ← List.singleton_append, Cursor.reads_append_iff] at reads
    rcases reads with ⟨middle, backslash, nameReads⟩
    -- The reading by code is tried first, and no name begins like a code.
    have noCode : (exactly ['u', '0', '0']).Rejects middle := by
      apply rejects_exactly_iff.mpr
      rw [nameReads.rest_eq]
      simp [notCode.symm]
    refine done_orElse_iff.mpr (.inl ?_)
    refine (run_bind_of_done (run_character backslash)).trans ?_
    refine (run_orElse_of_rejects (noCode.bind_left _) _).trans ?_
    refine (run_bind_of_done (run_anyCharacter nameReads)).trans ?_
    exact done_pure_iff.mpr ⟨value, rfl⟩
  · have parts : ['\\', 'u', '0', '0', high, low] =
        ['\\'] ++ (['u', '0', '0'] ++ ([high] ++ [low])) := rfl
    rw [equal, parts] at reads
    simp only [Cursor.reads_append_iff] at reads
    rcases reads with ⟨_, backslash, _, code, _, highReads, lowReads⟩
    refine done_orElse_iff.mpr (.inl ?_)
    refine (run_bind_of_done (run_character backslash)).trans ?_
    refine done_orElse_iff.mpr (.inl ?_)
    refine (run_bind_of_done (run_exactly code)).trans ?_
    refine (run_bind_of_done (run_anyCharacter highReads)).trans ?_
    refine (run_bind_of_done (run_anyCharacter lowReads)).trans ?_
    exact done_pure_iff.mpr ⟨value, rfl⟩
  · rw [equal] at reads
    have noBackslash : (character '\\').Rejects start := by
      apply rejects_character_iff.mpr
      rw [reads.rest_eq]
      rintro _ ⟨rfl⟩
      exact notBackslash
    refine (run_orElse_of_rejects (noBackslash.bind_left _) _).trans ?_
    exact done_oneOf_iff.mpr ⟨by simpa using notQuote, reads⟩

theorem escape_ne_nil (found : Char) : escape found ≠ [] := by
  rcases escape_cases found with ⟨_, equal, _⟩ | ⟨_, _, equal, _⟩ | ⟨equal, _⟩ <;> simp [equal]

theorem run_literal {start stop : Cursor} {text : List Char}
    (reads : start.Reads (quote text) stop) : literal.run start = .done text stop := by
  have parts : quote text = ['"'] ++ (text.flatMap escape ++ ['"']) := rfl
  rw [parts] at reads
  simp only [Cursor.reads_append_iff] at reads
  rcases reads with ⟨first, opening, last, inside, closing⟩
  have rejects : literalCharacter.Rejects last := by
    have noBackslash : (character '\\').Rejects last := by
      apply rejects_character_iff.mpr
      rw [closing.rest_eq]
      rintro _ ⟨rfl⟩
      decide
    refine (noBackslash.bind_left _).orElse (rejects_oneOf_iff.mpr ?_)
    rw [closing.rest_eq]
    rintro _ ⟨rfl⟩
    rfl
  have insideEqual := (run_many_of_links (fun _ => True)
    (fun found _ _ _ reads _ =>
      ⟨run_literalCharacter reads, reads.moves (escape_ne_nil found), trivial⟩)
    (links_of_reads inside) trivial rejects).1
  refine (run_bind_of_done (run_character opening)).trans ?_
  refine (run_bind_of_done insideEqual).trans ?_
  exact run_bind_of_done (run_character closing)

/-! ## Entries -/

namespace Reading

open PermissionEntry (isKeyStart isKeyCharacter isPlainKey)

def plainKey : Parser (List Char) := do
  let first ← oneOf isKeyStart
  let more ← takeWhile isKeyCharacter
  pure (first :: more)

def key : Parser (List Char) :=
  literal <|> plainKey

/-- The empty literal alone stands for no permissions. -/
def alternatives : Parser (List (List Char)) := do
  let literals ← separated (exactly " | ".toList) literal
  pure (if literals = [[]] then [] else literals)

def entry : Parser PermissionEntry := do
  exactly ['\n', ' ', ' ']
  let resourceType ← key
  exactly [':', ' ']
  let permissions ← alternatives
  character ','
  pure {
    resourceType := String.ofList resourceType
    permissions := permissions.map String.ofList }

def map : Parser PermissionMap := do
  exactly header.toList
  let entries ← many entry
  exactly ['\n', '}', '\n']
  endOfText
  pure { entries }

theorem run_key {start stop : Cursor} {name : List Char}
    (reads : start.Reads (PermissionEntry.key name) stop)
    (ends : ∀ next ∈ stop.rest.head?, isKeyCharacter next = false) :
    key.run start = .done name stop := by
  rw [PermissionEntry.key] at reads
  split at reads
  · rename_i plain
    cases name with
    | nil => cases plain
    | cons first more =>
        rw [isPlainKey, Bool.and_eq_true, List.all_eq_true] at plain
        rw [← List.singleton_append, Cursor.reads_append_iff] at reads
        rcases reads with ⟨middle, firstReads, moreReads⟩
        have noLiteral : literal.Rejects start := by
          refine Rejects.bind_left (rejects_character_iff.mpr ?_) _
          rw [firstReads.rest_eq]
          rintro _ ⟨rfl⟩ rfl
          exact absurd plain.1 (by decide)
        refine (run_orElse_of_rejects noLiteral _).trans ?_
        refine (run_bind_of_done (done_oneOf_iff.mpr ⟨plain.1, firstReads⟩)).trans ?_
        exact run_bind_of_done (done_takeWhile_iff.mpr ⟨moreReads, plain.2, ends⟩)
  · exact done_orElse_iff.mpr (.inl (run_literal reads))

theorem join_cons (separator first : List Char) (more : List (List Char)) :
    join separator (first :: more) = first ++ more.flatMap (separator ++ ·) := by
  induction more generalizing first with
  | nil => simp [join]
  | cons next more induction => rw [join, induction]; simp

theorem run_literals {start stop : Cursor} {first : List Char} {more : List (List Char)}
    (reads : start.Reads (join " | ".toList ((first :: more).map quote)) stop)
    (ends : stop.rest.head? = some ',') :
    (separated (exactly " | ".toList) literal).run start = .done (first :: more) stop := by
  rw [List.map_cons, join_cons, List.flatMap_map, Cursor.reads_append_iff] at reads
  rcases reads with ⟨middle, firstReads, moreReads⟩
  have rejects : (exactly " | ".toList).Rejects stop := by
    apply rejects_exactly_iff.mpr
    rintro ⟨more, equal⟩
    rw [← equal] at ends
    cases ends
  have next : ∀ text ∈ more, ∀ ⦃start stop : Cursor⦄,
      start.Reads (" | ".toList ++ quote text) stop → True →
      (exactly " | ".toList >>= fun _ => literal).run start = .done text stop ∧
        start.offset < stop.offset ∧ True := by
    intro text _ start stop reads _
    rcases Cursor.reads_append_iff.mp reads with ⟨_, bar, literalReads⟩
    refine ⟨(run_bind_of_done (run_exactly bar)).trans (run_literal literalReads), ?_, trivial⟩
    exact reads.moves (by simp)
  have moreEqual := (run_many_of_links (fun _ => True) next (links_of_reads moreReads) trivial
    (rejects.bind_left _)).1
  exact (run_bind_of_done (run_literal firstReads)).trans (run_bind_of_done moreEqual)

theorem run_alternatives {start stop : Cursor} {permissions : List String}
    (named : "" ∉ permissions)
    (reads : start.Reads (PermissionEntry.alternatives permissions) stop)
    (ends : stop.rest.head? = some ',') :
    alternatives.run start = .done (permissions.map String.toList) stop := by
  cases permissions with
  | nil =>
      have none : start.Reads (join " | ".toList ([[]].map quote)) stop := reads
      exact run_bind_of_done (run_literals none ends)
  | cons first more =>
      rw [List.mem_cons, not_or] at named
      have written : PermissionEntry.alternatives (first :: more) =
          join " | ".toList (((first :: more).map String.toList).map quote) := by
        rw [List.map_map]
        rfl
      rw [written, List.map_cons] at reads
      refine (run_bind_of_done (run_literals reads ends)).trans (done_pure_iff.mpr ⟨?_, rfl⟩)
      have notEmpty : first.toList ≠ [] := by
        intro empty
        exact named.1 (String.toList_eq_nil_iff.mp empty).symm
      simp [notEmpty]

theorem run_entry {start stop : Cursor} {written : PermissionEntry}
    (named : "" ∉ written.permissions) (reads : start.Reads (entryLine written) stop) :
    entry.run start = .done written stop := by
  have parts : entryLine written = ['\n', ' ', ' '] ++
      (PermissionEntry.key written.resourceType.toList ++
        ([':', ' '] ++ (PermissionEntry.alternatives written.permissions ++ [',']))) := by
    simp [entryLine, PermissionEntry.characters]
  rw [parts] at reads
  simp only [Cursor.reads_append_iff] at reads
  rcases reads with ⟨_, front, behindKey, keyReads, _, colon, behindAlternatives,
    alternativesRead, comma⟩
  have keyEnds : ∀ next ∈ behindKey.rest.head?, isKeyCharacter next = false := by
    rw [colon.rest_eq]
    rintro _ ⟨rfl⟩
    rfl
  have alternativesEnd : behindAlternatives.rest.head? = some ',' := by
    rw [comma.rest_eq]
    rfl
  refine (run_bind_of_done (run_exactly front)).trans ?_
  refine (run_bind_of_done (run_key keyReads keyEnds)).trans ?_
  refine (run_bind_of_done (run_exactly colon)).trans ?_
  refine (run_bind_of_done (run_alternatives named alternativesRead alternativesEnd)).trans ?_
  refine (run_bind_of_done (run_character comma)).trans (done_pure_iff.mpr ⟨?_, rfl⟩)
  simp [Function.comp_def]

end Reading

def ofCharacters (text : List Char) : Option PermissionMap :=
  match Reading.map.run (.ofText text) with
  | .done map _ => some map
  | .rejected _ => none
  | .aborted _ => none

/-- Maps whose permissions have names are read back from their texts. -/
theorem ofCharacters_characters {map : PermissionMap}
    (named : ∀ entry ∈ map.entries, "" ∉ entry.permissions) :
    ofCharacters map.characters = some map := by
  let stop : Cursor := (Cursor.ofText map.characters).advance map.characters []
  have reads : (Cursor.ofText map.characters).Reads map.characters stop :=
    Cursor.reads_advance (List.append_nil _).symm
  rw [characters, List.append_assoc] at reads
  simp only [Cursor.reads_append_iff] at reads
  rcases reads with ⟨_, header, last, entriesRead, closing⟩
  have rejects : Reading.entry.Rejects last := by
    refine Rejects.bind_left (rejects_exactly_iff.mpr ?_) _
    rw [closing.rest_eq]
    simp
  have entriesEqual := (run_many_of_links (fun _ => True)
    (fun entry member _ _ reads _ =>
      ⟨Reading.run_entry (named entry member) reads, reads.moves (by simp [entryLine]), trivial⟩)
    (links_of_reads entriesRead) trivial rejects).1
  have ends : endOfText.run stop = .done () stop := done_endOfText_iff.mpr ⟨rfl, rfl⟩
  have equal : Reading.map.run (.ofText map.characters) = .done map stop := by
    refine (run_bind_of_done (run_exactly header)).trans ?_
    refine (run_bind_of_done entriesEqual).trans ?_
    refine (run_bind_of_done (run_exactly closing)).trans ?_
    exact run_bind_of_done ends
  rw [ofCharacters, equal]

/-! ## Declarations -/

def declared (type : ObjectType) : String × List String :=
  (type.name, type.permissions)

/-- The types and their permissions that a text declares, if it is a map. -/
def declarations? (text : String) : Option (List (String × List String)) :=
  (ofCharacters text.toList).map fun map =>
    map.entries.map fun entry => (entry.resourceType, entry.permissions)

theorem declarations?_ofTypes {types : List ObjectType}
    (named : ∀ type ∈ types, "" ∉ type.permissions) :
    declarations? (ofTypes types).describe = some (types.map declared) := by
  have read : ofCharacters (ofTypes types).characters = some (ofTypes types) :=
    ofCharacters_characters (List.forall_mem_map.mpr named)
  rw [declarations?, describe, String.toList_ofList, read, Option.map_some, ofTypes, List.map_map]
  rfl

/-- A map is read back whatever the names of types and permissions are, so maps of different types
are written differently. -/
theorem declarations_from_description {types : List ObjectType}
    (named : ∀ type ∈ types, "" ∉ type.permissions) :
    declarations? (ofTypes types).describe = some (types.map declared) ∧
      ∀ other : List ObjectType, (∀ type ∈ other, "" ∉ type.permissions) →
        ((ofTypes types).describe = (ofTypes other).describe ↔
          types.map declared = other.map declared) := by
  have read := declarations?_ofTypes named
  refine ⟨read, fun other otherNamed => ⟨fun equal => ?_, fun equal => ?_⟩⟩
  · rw [equal, declarations?_ofTypes otherNamed] at read
    exact (Option.some.inj read).symm
  · have sameEntries : (ofTypes types).entries = (ofTypes other).entries := by
      have entries := congrArg
        (List.map fun pair : String × List String => PermissionEntry.mk pair.1 pair.2) equal
      rwa [List.map_map, List.map_map] at entries
    rw [describe, describe, characters, characters, sameEntries]

def unruly : List ObjectType :=
  [(ObjectType.ofName "").withPermission "a\" | \"b",
    (ObjectType.ofName "").withPermission "a" |>.withPermission "b",
    ObjectType.ofName "plain: \"\",\n\x7d\n",
    (ObjectType.ofName "plain").withRelation "" |>.withPermission "\\u0007\x07\u2028"]

theorem declarations_from_description_unruly :
    (∀ type ∈ unruly, "" ∉ type.permissions) ∧
      declarations? (ofTypes unruly).describe =
        some [("", ["a\" | \"b"]), ("", ["a", "b"]), ("plain: \"\",\n\x7d\n", []),
          ("plain", ["\\u0007\x07\u2028"])] ∧
      (ofTypes unruly).describe ≠ (ofTypes unruly.reverse).describe :=
  have named : ∀ type ∈ unruly, "" ∉ type.permissions := by decide
  have read := declarations_from_description named
  ⟨named, read.1, fun equal => absurd ((read.2 unruly.reverse (by decide)).mp equal) (by decide)⟩

/-- A permission without a name is written like no permission. -/
example : (ofTypes [(ObjectType.ofName "file").withPermission ""]).describe =
    (ofTypes [ObjectType.ofName "file"]).describe := rfl

end PermissionTypes.PermissionMap
