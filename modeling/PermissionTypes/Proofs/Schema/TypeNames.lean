import PermissionTypes.Proofs.Schema.Compiled
import PermissionTypes.Proofs.Schema.Completable
import PermissionTypes.Proofs.Schema.SchemaReading

/-! The names in the type of a caveat parameter. The outermost one is always known. Those of the
arguments can be any identifiers. -/

namespace PermissionTypes.Schema

open Schema.Parser
open Spelling (Within anyOf)

/-! ## Types as trees -/

/-- The name of a type, and the types that stand between its angle brackets. -/
inductive TypeTree where
  | named (name : String) (arguments : List TypeTree)

namespace TypeTree

def outermost : TypeTree → String
  | .named name _ => name

mutual
def names : TypeTree → List String
  | .named name arguments => name :: namesOfAll arguments

def namesOfAll : List TypeTree → List String
  | [] => []
  | type :: types => type.names ++ namesOfAll types
end

end TypeTree

namespace Grammar

mutual
def typeTree : TypeTree → Spelling
  | .named name arguments =>
      .provided (IsIdentifier name.toList) (.exactly name.toList) ++ typeTrees arguments

def typeTrees : List TypeTree → Spelling
  | [] => .exactly []
  | first :: more =>
      sign '<' ++ trivia ++ (typeTree first ++ furtherTypeTrees more) ++ trivia ++ sign '>'

def furtherTypeTrees : List TypeTree → Spelling
  | [] => .exactly []
  | next :: more => (between ',' ++ typeTree next) ++ furtherTypeTrees more
end

theorem furtherTypeTrees_eq (types : List TypeTree) :
    furtherTypeTrees types = .each (fun type => between ',' ++ typeTree type) types := by
  induction types with
  | nil => rfl
  | cons type types induction => rw [furtherTypeTrees, induction, Spelling.each]

theorem typeTrees_cons (first : TypeTree) (more : List TypeTree) :
    typeTrees (first :: more) =
      sign '<' ++ trivia ++ .separated (between ',') typeTree (first :: more) ++ trivia ++
        sign '>' := by
  rw [typeTrees, furtherTypeTrees_eq, Spelling.separated]

theorem exists_eq_cons_of_typeTrees {first : TypeTree} {more : List TypeTree} {offset : Nat}
    {text : List Char} (spelled : typeTrees (first :: more) offset text) :
    ∃ inside, text = '<' :: inside := by
  rcases spelled with ⟨_, _, rfl, _, fourParts, _⟩
  rcases fourParts with ⟨_, _, rfl, _, ⟨_, _, rfl, _, ⟨_, _, rfl, _, rfl, _⟩, _⟩, _⟩
  exact ⟨_, rfl⟩

def anyTypeTree : Spelling :=
  .anyOf (fun _ => True) typeTree

theorem typeArguments_within_typeTrees :
    Within (typeArguments anyTypeTree) (.anyOf (fun _ => True) typeTrees) := by
  apply Within.of_spells
  intro start stop spells
  rcases Cursor.spells_oneOf_iff.mp spells with ⟨more, spells⟩
  simp only [Cursor.spells_append_iff] at spells
  rcases spells with ⟨_, ⟨_, ⟨_, ⟨_, opening, front⟩, listed⟩, back⟩, closing⟩
  rcases Cursor.spells_append_iff.mp listed with ⟨_, firstSpells, moreSpells⟩
  have repeated := firstSpells.append (Cursor.spells_oneOf_iff.mpr ⟨more, moreSpells⟩)
  rcases Cursor.spells_anyOf_iff.mp (repeated.mono separated_of_repeated) with
    ⟨types, ⟨notNil, _⟩, separated⟩
  apply Cursor.spells_anyOf_iff.mpr
  cases types with
  | nil => exact absurd rfl notNil
  | cons first types =>
      refine ⟨first :: types, trivial, ?_⟩
      rw [typeTrees_cons]
      exact (((opening.append front).append separated).append back).append closing

theorem typeShape_within_anyTypeTree : Within (typeShape anyTypeTree) anyTypeTree := by
  apply Within.of_spells
  intro start stop spells
  rcases Cursor.spells_append_iff.mp spells with ⟨middle, ⟨text, reads, apart, isIdentifier⟩, more⟩
  let name := String.ofList text
  have nameSpells : start.Spells (.provided (IsIdentifier name.toList) (.exactly name.toList))
      middle := by
    rw [String.toList_ofList]
    exact ⟨text, reads, apart, isIdentifier, rfl⟩
  apply Cursor.spells_anyOf_iff.mpr
  rcases Cursor.spells_either_iff.mp more with none | arguments
  · exact ⟨.named name [], trivial, nameSpells.append none⟩
  · rcases Cursor.spells_anyOf_iff.mp (arguments.mono typeArguments_within_typeTrees) with
      ⟨types, _, spellsTypes⟩
    exact ⟨.named name types, trivial, nameSpells.append spellsTypes⟩

theorem parameterType_within_anyTypeTree : Within parameterType anyTypeTree := by
  have nested : ∀ depth, Within (nestedType depth) anyTypeTree := by
    intro depth
    induction depth with
    | zero => exact fun _ _ impossible => impossible.elim
    | succ depth induction =>
        have inside := isRule_typeShape.grows fun _ => induction
        exact inside.trans typeShape_within_anyTypeTree
  rintro offset text ⟨depth, spelled⟩
  exact nested depth spelled

end Grammar

/-! ## Known names -/

def Parameter.HasType (parameter : Parameter) (type : TypeTree) : Prop :=
  Grammar.typeTree type 0 parameter.type.toList

namespace Parameter

theorem exists_hasType {parameter : Parameter} (shaped : parameter.WellShaped) :
    ∃ type, parameter.HasType type := by
  rcases shaped.type with ⟨offset, spelled⟩
  have spelledHere : Grammar.parameterType 0 parameter.type.toList :=
    anywhere_parameterType spelled
  rcases Grammar.parameterType_within_anyTypeTree spelledHere with ⟨type, _, hasType⟩
  exact ⟨type, hasType⟩

/-- No angle bracket stands before the arguments of a type. -/
theorem outermostType_of_hasType {parameter : Parameter} {type : TypeTree}
    (hasType : parameter.HasType type) : parameter.outermostType = type.outermost.toList := by
  cases type with
  | named name arguments =>
      rcases hasType with ⟨front, back, equal, _, ⟨isIdentifier, rfl⟩, arguments_spelled⟩
      have inName : ∀ character ∈ name.toList, (character != '<') = true := by
        intro character member
        rw [bne_iff_ne]
        rintro rfl
        cases isIdentifier.isWordCharacter '<' member
      have stops : back.takeWhile (· != '<') = [] := by
        cases arguments with
        | nil =>
            cases arguments_spelled
            rfl
        | cons first more =>
            rcases Grammar.exists_eq_cons_of_typeTrees arguments_spelled with ⟨inside, rfl⟩
            rfl
      rw [outermostType, equal, List.takeWhile_append_of_pos inName, stops, List.append_nil]
      rfl

end Parameter

/-- In a schema that compiles, the outermost name in the type of each parameter is known. -/
theorem outermost_type_is_known {schema : String} {model : ObjectModel}
    (compiled : compile schema = .ok model) :
    ∃ items, parse schema = .ok items ∧
      ∀ caveat : Caveat, .caveat caveat ∈ items → ∀ parameter ∈ caveat.parameters,
        (∃ type, parameter.HasType type) ∧
          ∀ type, parameter.HasType type → type.outermost ∈ Parameter.knownTypes := by
  rcases wellFormed_of_compile compiled with ⟨items, read, wellFormed, _⟩
  rcases parse_eq_ok_iff.mp read with ⟨_, done⟩
  refine ⟨items, read, ?_⟩
  intro caveat item parameter member
  have shaped : caveat.WellShaped := (of_done_items done).2 _ item
  have isWellFormed : caveat.WellFormed := wellFormed.each _ item
  refine ⟨Parameter.exists_hasType (shaped.parameters parameter member), ?_⟩
  intro type hasType
  have known := Parameter.isKnown_iff.mpr (isWellFormed.known parameter member)
  rwa [Parameter.isKnown, Parameter.outermostType_of_hasType hasType, String.ofList_toList,
    List.contains_iff_mem] at known

/-! ### A known type of unknown ones -/

def frobText : String :=
  "caveat cav(a list<frob>)\x7ba\x7d"

def frobParameter : Parameter where
  name := "a"
  type := "list<frob>"

def frobCaveat : Caveat where
  name := ⟨"cav", 7⟩
  parameters := [frobParameter]
  expression := "a"

theorem parse_frobText : parse frobText = .ok [.caveat frobCaveat] := by
  with_unfolding_all rfl

theorem compile_frobText : compile frobText = .ok { types := [], caveats := ["cav"] } := by
  with_unfolding_all rfl

theorem hasType_frobParameter : frobParameter.HasType (.named "list" [.named "frob" []]) := by
  have list : Grammar.IsIdentifier "list".toList :=
    ⟨'l', "ist".toList, rfl, rfl, List.all_eq_true.mp rfl⟩
  have frob : Grammar.IsIdentifier "frob".toList :=
    ⟨'f', "rob".toList, rfl, rfl, List.all_eq_true.mp rfl⟩
  have argument : Grammar.typeTree (.named "frob" []) 5 "frob".toList :=
    ⟨"frob".toList, [], rfl, .nil_right _, ⟨frob, rfl⟩, rfl⟩
  have opening : (Grammar.sign '<' ++ Grammar.trivia) 4 ['<'] :=
    ⟨['<'], [], rfl, .nil_right _, rfl, .nil⟩
  have arguments : Grammar.typeTrees [.named "frob" []] 4 "<frob>".toList :=
    ⟨"<frob".toList, ['>'], rfl, .of_head fun _ closing => Option.some.inj closing ▸ rfl,
      ⟨"<frob".toList, [], rfl, .nil_right _,
        ⟨['<'], "frob".toList, rfl, .of_last fun _ last => Option.some.inj last ▸ rfl, opening,
          "frob".toList, [], rfl, .nil_right _, argument, rfl⟩, .nil⟩, rfl⟩
  exact ⟨"list".toList, "<frob>".toList, rfl, .of_head fun _ first => Option.some.inj first ▸ rfl,
    ⟨list, rfl⟩, arguments⟩

theorem not_forall_type_is_known :
    ¬ ∀ schema model items, compile schema = .ok model → parse schema = .ok items →
      ∀ caveat : Caveat, .caveat caveat ∈ items → ∀ parameter ∈ caveat.parameters,
        ∀ type, parameter.HasType type → ∀ name ∈ type.names, name ∈ Parameter.knownTypes := by
  intro known
  have frob : "frob" ∈ Parameter.knownTypes :=
    known _ _ _ compile_frobText parse_frobText frobCaveat (.head _) frobParameter (.head _) _
      hasType_frobParameter "frob" (.tail _ (.head _))
  exact absurd frob (by decide)

theorem outermost_type_is_known_frob :
    compile frobText = .ok { types := [], caveats := ["cav"] } ∧
      ∃ items, parse frobText = .ok items ∧
        ∀ caveat : Caveat, .caveat caveat ∈ items → ∀ parameter ∈ caveat.parameters,
          (∃ type, parameter.HasType type) ∧
            ∀ type, parameter.HasType type → type.outermost ∈ Parameter.knownTypes :=
  ⟨compile_frobText, outermost_type_is_known compile_frobText⟩

end PermissionTypes.Schema
