import Mathlib.Data.List.Chain
import Mathlib.Data.List.Nodup
import PermissionTypes.Proofs.EntryLines
import PermissionTypes.Proofs.ModuleLines

/-! Names that follow the rule for declarations are written as they are. The rule leaves no
character to escape, and only slashes keep the name of a type from standing as a key without
quotes. -/

namespace PermissionTypes

open Schema
open Schema.NameRule (isLower isLowerOrDigit)
open Text (escape quote join IsPlain)

/-! ## Characters of names -/

theorem Text.mem_or_mem_of_mem_join {character : Char} {separator : List Char}
    {pieces : List (List Char)} (member : character ∈ join separator pieces) :
    character ∈ separator ∨ ∃ piece ∈ pieces, character ∈ piece := by
  cases pieces with
  | nil => cases member
  | cons first more =>
      rw [PermissionMap.Reading.join_cons] at member
      rcases List.mem_append.mp member with inFirst | member
      · exact .inr ⟨first, List.mem_cons_self, inFirst⟩
      · rcases List.mem_flatMap.mp member with ⟨piece, pieceMember, found⟩
        rcases List.mem_append.mp found with inSeparator | inPiece
        · exact .inl inSeparator
        · exact .inr ⟨piece, List.mem_cons_of_mem _ pieceMember, inPiece⟩

namespace Schema

def isDeclarable (character : Char) : Bool :=
  isLowerOrDigit character || character == '_' || character == '/'

theorem IsDeclaredName.isDeclarable {text : List Char} (isName : IsDeclaredName text) :
    ∀ character ∈ text, isDeclarable character = true := by
  have allowed := isDeclaredName_iff.mpr isName
  simp only [NameRule.allows, Bool.and_eq_true, List.all_eq_true] at allowed
  intro character member
  rw [Schema.isDeclarable, allowed.2 character member, Bool.true_or]

theorem IsDeclaredPath.isDeclarable {text : List Char} (isPath : IsDeclaredPath text) :
    ∀ character ∈ text, isDeclarable character = true := by
  rcases isPath with ⟨names, _, isName, rfl⟩
  intro character member
  rcases Text.mem_or_mem_of_mem_join member with slash | ⟨name, nameMember, found⟩
  · rw [List.mem_singleton.mp slash]
    rfl
  · exact (isName name nameMember).isDeclarable character found

theorem IsDeclaredPath.starts {text : List Char} (isPath : IsDeclaredPath text) :
    ∃ first more, text = first :: more ∧ isLower first = true := by
  rcases isPath with ⟨names, notNil, isName, rfl⟩
  cases names with
  | nil => exact absurd rfl notNil
  | cons name names =>
      rcases isName name List.mem_cons_self with ⟨first, middle, last, rfl, lower, _⟩
      exact ⟨first, _, PermissionMap.Reading.join_cons _ _ _, lower⟩

theorem IsDeclaredPath.ne_nil {text : List Char} (isPath : IsDeclaredPath text) : text ≠ [] := by
  rcases isPath.starts with ⟨first, more, rfl, _⟩
  exact List.cons_ne_nil first more

theorem not_mem_of_isDeclarable {found : Char} {text : List Char}
    (other : isDeclarable found = false)
    (declarable : ∀ character ∈ text, isDeclarable character = true) : found ∉ text := by
  intro member
  rw [declarable found member] at other
  cases other

theorem isPlain_of_isDeclarable {character : Char}
    (declarable : isDeclarable character = true) : IsPlain character := by
  refine ⟨?_, ?_, Text.printable_of_belongs (by decide) declarable⟩
  · rintro rfl
    cases declarable
  · rintro rfl
    cases declarable

end Schema

theorem Text.escape_of_isPlain {character : Char} (plain : IsPlain character) :
    escape character = [character] := by
  rcases plain with ⟨notQuote, notBackslash, printable⟩
  have notControl (control : Char) (small : control.toNat < 0x20) : character ≠ control := by
    rintro rfl
    omega
  simp [escape, notQuote, notBackslash, notControl '\x08' (by decide),
    notControl '\x0c' (by decide), notControl '\n' (by decide), notControl '\r' (by decide),
    notControl '\t' (by decide), Nat.not_lt.mpr printable]

theorem Text.quote_of_isDeclarable {text : List Char}
    (declarable : ∀ character ∈ text, isDeclarable character = true) :
    quote text = '"' :: text ++ ['"'] := by
  have same : text.flatMap escape = text := by
    induction text with
    | nil => rfl
    | cons character text induction =>
        rcases List.forall_mem_cons.mp declarable with ⟨here, behind⟩
        rw [List.flatMap_cons, escape_of_isPlain (isPlain_of_isDeclarable here),
          induction behind, List.singleton_append]
  rw [quote, same]

/-! ## Keys -/

namespace PermissionEntry

theorem isKeyStart_of_isLower {character : Char} (lower : isLower character = true) :
    isKeyStart character = true := by
  have isLower : character.isLower = true := lower
  have isAlpha : character.isAlpha = true := by
    change (character.isUpper || character.isLower) = true
    rw [isLower, Bool.or_true]
  rw [isKeyStart, isAlpha, Bool.true_or, Bool.true_or]

theorem isKeyCharacter_of_isDeclarable {character : Char}
    (declarable : isDeclarable character = true) (notSlash : character ≠ '/') :
    isKeyCharacter character = true := by
  simp only [isDeclarable, isLowerOrDigit, Bool.or_eq_true, beq_iff_eq] at declarable
  rcases declarable with ((lower | digit) | underscore) | slash
  · exact isKeyCharacter_of_isKeyStart (isKeyStart_of_isLower lower)
  · have isDigit : character.isDigit = true := digit
    simp only [isKeyCharacter, Char.isAlphanum, isDigit, Bool.or_true, Bool.true_or]
  · simp [isKeyCharacter, underscore]
  · exact absurd slash notSlash

/-- Only a slash keeps the name of a type from standing as a key without quotes. -/
theorem isPlainKey_iff_of_isDeclaredPath {text : List Char} (isPath : IsDeclaredPath text) :
    isPlainKey text = true ↔ '/' ∉ text := by
  have declarable := isPath.isDeclarable
  rcases isPath.starts with ⟨first, more, rfl, lower⟩
  rw [isPlainKey, isKeyStart_of_isLower lower, Bool.true_and, List.all_eq_true]
  rw [List.forall_mem_cons] at declarable
  constructor
  · intro inKey member
    rcases List.mem_cons.mp member with rfl | member
    · cases lower
    · cases inKey '/' member
  · intro noSlash character member
    apply isKeyCharacter_of_isDeclarable (declarable.2 character member)
    rintro rfl
    exact noSlash (List.mem_cons_of_mem _ member)

end PermissionEntry

/-! ## Verbatim lines -/

namespace PermissionMap

def verbatim (name : String) : List Char :=
  '"' :: (name.toList ++ ['"'])

def verbatimKey (type : String) : List Char :=
  if '/' ∈ type.toList then verbatim type else type.toList

def verbatimAlternatives : List String → List Char
  | [] => verbatim ""
  | permissions => join " | ".toList (permissions.map verbatim)

def verbatimLine (declared : String × List String) : List Char :=
  "\n  ".toList ++ (verbatimKey declared.1 ++ (": ".toList ++
    (verbatimAlternatives declared.2 ++ [','])))

def HasNoEmptyLiteral (text : List Char) : Prop :=
  text.IsChain fun first second => ¬ (first = '"' ∧ second = '"')

namespace HasNoEmptyLiteral

theorem of_not_mem {text : List Char} (noQuote : '"' ∉ text) : HasNoEmptyLiteral text := by
  apply List.Pairwise.isChain
  apply List.pairwise_of_forall_mem_list
  intro first firstMember second _ both
  exact noQuote (both.1 ▸ firstMember)

theorem append_of_not_mem {front back : List Char} (noQuote : '"' ∉ front)
    (goesOn : HasNoEmptyLiteral back) : HasNoEmptyLiteral (front ++ back) := by
  apply (of_not_mem noQuote).append goesOn
  intro first isLast second _ both
  exact noQuote (both.1 ▸ List.mem_of_mem_getLast? isLast)

theorem append_of_head {front back : List Char} (begins : HasNoEmptyLiteral front)
    (goesOn : HasNoEmptyLiteral back) (noQuote : back.head? ≠ some '"') :
    HasNoEmptyLiteral (front ++ back) := by
  apply begins.append goesOn
  intro first _ second isHead both
  exact noQuote (both.2 ▸ isHead)

theorem of_verbatim {name : String} (notNil : name.toList ≠ []) (noQuote : '"' ∉ name.toList) :
    HasNoEmptyLiteral (verbatim name) := by
  rw [verbatim]
  apply List.IsChain.cons
  · exact append_of_not_mem noQuote (List.isChain_singleton _)
  · cases equal : name.toList with
    | nil => exact absurd equal notNil
    | cons first more =>
        rw [equal] at noQuote
        intro second isHead both
        have same : first = second := Option.some.inj isHead
        exact noQuote (same.trans both.2 ▸ List.mem_cons_self)

/-- A separator keeps the quotes of its neighbours apart. -/
theorem of_join {separator : List Char} (notNil : separator ≠ []) (noQuote : '"' ∉ separator)
    {pieces : List (List Char)} (each : ∀ piece ∈ pieces, HasNoEmptyLiteral piece) :
    HasNoEmptyLiteral (join separator pieces) := by
  induction pieces with
  | nil => exact .nil
  | cons piece pieces induction =>
      rcases List.forall_mem_cons.mp each with ⟨here, behind⟩
      cases pieces with
      | nil => exact here
      | cons next pieces =>
          rw [join, List.append_assoc]
          apply append_of_head here (append_of_not_mem noQuote (induction behind))
          rw [List.head?_append_of_ne_nil _ notNil]
          exact fun isHead => noQuote (List.mem_of_mem_head? isHead)

theorem of_verbatimAlternatives {permissions : List String} (notNil : permissions ≠ [])
    (each : ∀ permission ∈ permissions, HasNoEmptyLiteral (verbatim permission)) :
    HasNoEmptyLiteral (verbatimAlternatives permissions) := by
  rw [verbatimAlternatives]
  · exact of_join (by decide) (by decide) (List.forall_mem_map.mpr each)
  · exact notNil

theorem not_infix {text : List Char} (noLiteral : HasNoEmptyLiteral text) :
    ¬ ['"', '"'] <:+: text := by
  intro inside
  have apart := noLiteral.infix inside
  rw [List.isChain_pair] at apart
  exact apart ⟨rfl, rfl⟩

end HasNoEmptyLiteral

theorem verbatim_injective : Function.Injective verbatim := by
  intro first second equal
  rw [verbatim, verbatim, List.cons_inj_right, List.append_left_inj] at equal
  exact String.toList_inj.mp equal

theorem backslash_not_mem_verbatim {name : String}
    (declarable : ∀ character ∈ name.toList, isDeclarable character = true) :
    '\\' ∉ verbatim name := by
  simp only [verbatim, List.mem_cons, List.mem_append, List.not_mem_nil, or_false, not_or]
  exact ⟨by decide, not_mem_of_isDeclarable rfl declarable, by decide⟩

theorem slash_mem_verbatimKey (type : String) : '/' ∈ verbatimKey type ↔ '/' ∈ type.toList := by
  rw [verbatimKey]
  split
  · simp [verbatim]
  · rfl

theorem verbatimKey_injective : Function.Injective verbatimKey := by
  intro first second equal
  have sameSlash : '/' ∈ first.toList ↔ '/' ∈ second.toList := by
    rw [← slash_mem_verbatimKey, equal, slash_mem_verbatimKey]
  rw [verbatimKey, verbatimKey] at equal
  split at equal
  · rename_i hasSlash
    rw [if_pos (sameSlash.mp hasSlash)] at equal
    exact verbatim_injective equal
  · rename_i noSlash
    rw [if_neg (mt sameSlash.mpr noSlash)] at equal
    exact String.toList_inj.mp equal

section

variable {declared : String × List String} (followsRule : FollowsRule declared)
include followsRule

theorem key_eq_verbatimKey : PermissionEntry.key declared.1.toList = verbatimKey declared.1 := by
  have plainKey := PermissionEntry.isPlainKey_iff_of_isDeclaredPath followsRule.type
  rw [PermissionEntry.key, verbatimKey, Text.quote_of_isDeclarable followsRule.type.isDeclarable]
  by_cases hasSlash : '/' ∈ declared.1.toList
  · rw [if_pos hasSlash, if_neg fun isPlain => plainKey.mp isPlain hasSlash]
    rfl
  · rw [if_neg hasSlash, if_pos (plainKey.mpr hasSlash)]

theorem alternatives_eq_verbatimAlternatives :
    PermissionEntry.alternatives declared.2 = verbatimAlternatives declared.2 := by
  have each := followsRule.permissions
  cases equal : declared.2 with
  | nil => rfl
  | cons first more =>
      rw [equal] at each
      have same : (first :: more).map (fun name => quote name.toList) =
          (first :: more).map verbatim := by
        apply List.map_congr_left
        intro name member
        exact Text.quote_of_isDeclarable (each name member).isDeclarable
      rw [PermissionEntry.alternatives, same, verbatimAlternatives]
      · exact List.cons_ne_nil first more
      · exact List.cons_ne_nil first more

theorem entryLine_eq_verbatimLine : entryLine (.ofDeclared declared) = verbatimLine declared := by
  rw [entryLine, PermissionEntry.characters, PermissionEntry.ofDeclared,
    key_eq_verbatimKey followsRule, alternatives_eq_verbatimAlternatives followsRule, verbatimLine]
  simp

theorem backslash_not_mem_verbatimKey : '\\' ∉ verbatimKey declared.1 := by
  have ofType := followsRule.type.isDeclarable
  rw [verbatimKey]
  split
  · exact backslash_not_mem_verbatim ofType
  · exact not_mem_of_isDeclarable rfl ofType

theorem backslash_not_mem_verbatimAlternatives : '\\' ∉ verbatimAlternatives declared.2 := by
  have each := followsRule.permissions
  cases equal : declared.2 with
  | nil => decide
  | cons first more =>
      rw [equal] at each
      rw [verbatimAlternatives]
      · intro member
        rcases Text.mem_or_mem_of_mem_join member with inSeparator | ⟨piece, found, inPiece⟩
        · revert inSeparator
          decide
        · rcases List.mem_map.mp found with ⟨name, nameMember, rfl⟩
          exact backslash_not_mem_verbatim (each name nameMember).isDeclarable inPiece
      · exact List.cons_ne_nil first more

theorem backslash_not_mem_verbatimLine : '\\' ∉ verbatimLine declared := by
  simp only [verbatimLine, List.mem_append, not_or]
  exact ⟨by decide, backslash_not_mem_verbatimKey followsRule, by decide,
    backslash_not_mem_verbatimAlternatives followsRule, by decide⟩

theorem hasNoEmptyLiteral_verbatimKey : HasNoEmptyLiteral (verbatimKey declared.1) := by
  have ofType := followsRule.type.isDeclarable
  rw [verbatimKey]
  split
  · exact .of_verbatim followsRule.type.ne_nil (not_mem_of_isDeclarable rfl ofType)
  · exact .of_not_mem (not_mem_of_isDeclarable rfl ofType)

theorem hasNoEmptyLiteral_verbatimAlternatives (notNil : declared.2 ≠ []) :
    HasNoEmptyLiteral (verbatimAlternatives declared.2) := by
  apply HasNoEmptyLiteral.of_verbatimAlternatives notNil
  intro permission member
  have isName := followsRule.permissions permission member
  exact .of_verbatim isName.ne_nil (not_mem_of_isDeclarable rfl isName.isDeclarable)

/-- The empty literal stands for no permissions, and nothing else looks like it. -/
theorem emptyLiteral_iff : ['"', '"'] <:+: verbatimLine declared ↔ declared.2 = [] := by
  constructor
  · intro inside
    by_contra notNil
    have ofAlternatives := hasNoEmptyLiteral_verbatimAlternatives followsRule notNil
    have ofLine : HasNoEmptyLiteral (verbatimLine declared) := by
      apply HasNoEmptyLiteral.append_of_not_mem (by decide)
      apply (hasNoEmptyLiteral_verbatimKey followsRule).append_of_head _ (by simp)
      apply HasNoEmptyLiteral.append_of_not_mem (by decide)
      exact ofAlternatives.append_of_head (.of_not_mem (by decide)) (by decide)
    exact ofLine.not_infix inside
  · intro equal
    rw [verbatimLine, equal]
    refine ⟨"\n  ".toList ++ verbatimKey declared.1 ++ ": ".toList, [','], ?_⟩
    simp [verbatimAlternatives, verbatim]

end

end PermissionMap

/-! ## The module -/

namespace Schema

theorem sublist_declaredNames (items : List Item) :
    ((declaredPermissions items).map Prod.fst).Sublist (declaredNames items) := by
  induction items with
  | nil => exact .slnil
  | cons item items induction =>
      cases item with
      | feature name => exact induction
      | caveat declared => exact induction.cons _
      | definition declared => exact induction.cons_cons _

end Schema

namespace Generation

open PermissionMap (ofTypes verbatim verbatimKey verbatimLine)
open ClientModule (ofEntryLines)

/-- In the module of an accepted schema, names are written as they are. The name of a type is put
between quotes if it has a slash, and a permission always. No line has an escape, the empty literal
is in the lines without permissions only, and neither keys nor the alternatives of a line repeat. -/
theorem clientModule_is_verbatim {schema : String} {model : ObjectModel}
    (compiled : compile schema = .ok model) (file : String) :
    clientModule compile file (.ok schema.toUTF8) =
        .ok (ofEntryLines (ofTypes model.types).entryLines) ∧
      (ofTypes model.types).entryLines = (permissionsOf schema).map verbatimLine ∧
      (∀ declared ∈ permissionsOf schema,
        '\\' ∉ verbatimLine declared ∧
          (['"', '"'] <:+: verbatimLine declared ↔ declared.2 = []) ∧
          (declared.2.map verbatim).Nodup) ∧
      ((permissionsOf schema).map fun declared => verbatimKey declared.1).Nodup := by
  rcases wellFormed_of_compile compiled with ⟨items, read, wellFormed, rfl⟩
  have declares : permissionsOf schema = declaredPermissions items := by
    rw [permissionsOf, read]
  have followsRule := followsRule_of_wellFormed wellFormed
  rw [declares]
  refine ⟨?_, ?_, ?_, ?_⟩
  · rw [clientModule_of_compile compiled, ClientModule.text_eq_ofEntryLines]
  · rw [PermissionMap.entryLines, PermissionMap.entries_ofTypes_objectModel, List.map_map]
    apply List.map_congr_left
    intro declared member
    exact PermissionMap.entryLine_eq_verbatimLine (followsRule declared member)
  · intro declared member
    have follows := followsRule declared member
    exact ⟨PermissionMap.backslash_not_mem_verbatimLine follows,
      PermissionMap.emptyLiteral_iff follows,
      follows.distinct.map PermissionMap.verbatim_injective⟩
  · have distinct := wellFormed.distinct.sublist (sublist_declaredNames items)
    have keys := distinct.map PermissionMap.verbatimKey_injective
    rwa [List.map_map] at keys

/-! ### A type with a slash and permissions, and one with neither -/

def pageText : String :=
  "definition user\x7b\x7ddefinition doc/page\x7brelation own:user permission view=own " ++
    "permission edit=nil\x7d"

theorem compile_pageText : compile pageText = .ok {
    types := [
      { name := "user", members := [] },
      { name := "doc/page"
        members := [
          { name := "own", kind := .relation }, { name := "view", kind := .permission },
          { name := "edit", kind := .permission }] }]
    caveats := [] } := by
  with_unfolding_all rfl

theorem permissionsOf_pageText :
    permissionsOf pageText = [("user", []), ("doc/page", ["view", "edit"])] := by
  with_unfolding_all rfl

theorem clientModule_is_verbatim_page :
    clientModule compile "page" (.ok pageText.toUTF8) = .ok (ofEntryLines
      ["\n  user: \"\",".toList, "\n  \"doc/page\": \"view\" | \"edit\",".toList]) := by
  rcases clientModule_is_verbatim compile_pageText "page" with ⟨generated, lines, _⟩
  rw [lines, permissionsOf_pageText] at generated
  exact generated

end Generation
end PermissionTypes
