import PermissionTypes.Proofs.Schema.Compiled
import PermissionTypes.Proofs.Schema.GrammarRules
import PermissionTypes.Proofs.Schema.MovedSpelling
import PermissionTypes.Proofs.Schema.SchemaReading

/-! Two schemas with a line end between them. The items of the second one are read behind those of
the first one, and where the two share no names, the whole compiles to both object models. -/

namespace PermissionTypes

def ObjectModel.names (model : ObjectModel) : List String :=
  model.types.map (·.name) ++ model.caveats

namespace Schema

open Text (byteLength byteLength_append)

/-! ## Laws of spellings -/

namespace Spelling

/-- Spellings that stand between the same cursors have the same texts. -/
theorem eq_of_spells {first second : Spelling}
    (same : ∀ start stop : Cursor, start.Spells first stop ↔ start.Spells second stop) :
    first = second := by
  funext offset text
  have whole (spelling : Spelling) :
      (⟨offset, text⟩ : Cursor).Spells spelling ⟨offset + byteLength text, []⟩ ↔
        spelling offset text := by
    constructor
    · intro spells
      rcases spells with ⟨read, reads, _, spelled⟩
      have equal : text = read ++ [] := reads.rest_eq
      rw [List.append_nil] at equal
      exact equal ▸ spelled
    · intro spelled
      exact ⟨text, ⟨(List.append_nil text).symm, rfl⟩, .nil_right text, spelled⟩
  exact propext ((whole first).symm.trans ((same _ _).trans (whole second)))

theorem append_assoc (first second third : Spelling) :
    first ++ second ++ third = first ++ (second ++ third) := by
  apply eq_of_spells
  intro start stop
  simp only [Cursor.spells_append_iff]
  constructor
  · intro spells
    rcases spells with ⟨late, ⟨early, front, middle⟩, back⟩
    exact ⟨early, front, late, middle, back⟩
  · intro spells
    rcases spells with ⟨early, front, late, middle, back⟩
    exact ⟨late, ⟨early, front, middle⟩, back⟩

theorem append_exactly_nil (spelling : Spelling) : spelling ++ exactly [] = spelling := by
  apply eq_of_spells
  intro start stop
  simp only [Cursor.spells_append_iff, Cursor.spells_exactly_nil_iff, exists_eq_right']

end Spelling

/-! ## Items behind items -/

namespace Grammar

open Trivia (isTrivia_append isTrivia_of_piece last_of_isTrivia)

theorem trivia_append_trivia : trivia ++ trivia = trivia := by
  apply Spelling.Within.antisymm
  · intro offset text spelled
    rcases spelled with ⟨front, back, rfl, _, first, second⟩
    exact isTrivia_append first second
  · intro offset text spelled
    exact ⟨[], text, rfl, .nil_left text, .nil, spelled⟩

theorem items_nil : items [] = trivia :=
  Spelling.append_exactly_nil trivia

theorem items_cons (first : Item) (more : List Item) :
    items (first :: more) = trivia ++ item first ++ items more := by
  rw [items, items, Spelling.each, Spelling.append_assoc, Spelling.append_assoc]

theorem trivia_append_items (written : List Item) : trivia ++ items written = items written := by
  rw [items, ← Spelling.append_assoc, trivia_append_trivia]

theorem items_append (front back : List Item) :
    items (front ++ back) = items front ++ items back := by
  induction front with
  | nil => rw [List.nil_append, items_nil, trivia_append_items]
  | cons first front induction =>
      rw [List.cons_append, items_cons, items_cons, induction, ← Spelling.append_assoc]

theorem apart_of_isOpenComment {comment : List Char} (isOpen : IsOpenComment comment)
    (front : List Char) : Apart front comment := by
  rcases isOpen with rfl | ⟨text, _, rfl⟩
  · exact .nil_right front
  · refine .of_head fun first member => ?_
    cases member
    decide

/-- The line end ends an open comment. -/
theorem isTrivia_of_isOpenComment {comment : List Char} (isOpen : IsOpenComment comment) :
    IsTrivia (comment ++ ['\n']) := by
  apply isTrivia_of_piece
  rcases isOpen with rfl | ⟨text, inLine, rfl⟩
  · exact .blank rfl
  · exact .lineComment inLine rfl

/-- The line end between the two texts is trivia, so the items of the second text are spelled behind
those of the first one, with their names that many bytes later. -/
theorem schema_append {first second : List Item} {front back : List Char}
    (firstSpelled : schema first front) (secondSpelled : schema second back) :
    schema (first ++ second.map (Item.moved (byteLength front + 1))) (front ++ '\n' :: back) := by
  rcases firstSpelled with ⟨front, comment, rfl, frontApart, frontSpelled, isOpen⟩
  rcases secondSpelled with ⟨back, lastComment, rfl, _, backSpelled, lastIsOpen⟩
  let distance := byteLength (front ++ comment) + 1
  have separated := isTrivia_of_isOpenComment isOpen
  have behind : items (second.map (Item.moved distance)) (0 + byteLength front)
      (comment ++ '\n' :: back) := by
    rw [← trivia_append_items, List.append_cons]
    refine ⟨comment ++ ['\n'], back, rfl, .of_last (last_of_isTrivia separated), separated, ?_⟩
    have place : 0 + byteLength front + byteLength (comment ++ ['\n']) = 0 + distance := by
      simp only [distance, byteLength_append]
      exact Nat.add_assoc ..
    rw [place]
    exact moves_items second backSpelled
  have both : items (first ++ second.map (Item.moved distance)) 0
      (front ++ (comment ++ '\n' :: back)) := by
    rw [items_append]
    refine ⟨front, _, rfl, Apart.append_right_iff.mpr ⟨frontApart, fun _ => ?_⟩, frontSpelled,
      behind⟩
    refine .of_head fun first member => ?_
    cases member
    decide
  refine ⟨_, lastComment, ?_, apart_of_isOpenComment lastIsOpen _, both, lastIsOpen⟩
  simp only [List.append_assoc, List.cons_append]

end Grammar

theorem parse_append {first second : String} {items more : List Item}
    (firstRead : parse first = .ok items) (secondRead : parse second = .ok more) :
    parse (first ++ "\n" ++ second) =
      .ok (items ++ more.map (Item.moved (byteLength first.toList + 1))) := by
  rcases parse_eq_ok_iff.mp firstRead with ⟨_, firstDone⟩
  rcases parse_eq_ok_iff.mp secondRead with ⟨_, secondDone⟩
  rcases of_done_items firstDone with ⟨firstSpelled, firstShaped⟩
  rcases of_done_items secondDone with ⟨secondSpelled, secondShaped⟩
  apply parse_eq_ok_iff.mpr
  apply run_items
  · refine List.forall_mem_append.mpr ⟨firstShaped, List.forall_mem_map.mpr ?_⟩
    exact fun item member => (secondShaped item member).moved _
  · rw [String.toList_append, String.toList_append, List.append_assoc]
    exact Grammar.schema_append firstSpelled secondSpelled

/-! ## Both object models -/

theorem mem_names_objectModel {items : List Item} {name : String} :
    name ∈ (objectModel items).names ↔ name ∈ declaredNames items := by
  rw [ObjectModel.names, objectModel, declaredNames, List.mem_append, List.map_filterMap]
  induction items with
  | nil => simp
  | cons item items induction =>
      cases item <;>
        simp [List.filterMap_cons, Item.declared?, Definition.object, ← induction, or_assoc,
          or_left_comm]

theorem objectModel_append (items more : List Item) :
    objectModel (items ++ more) =
      { types := (objectModel items).types ++ (objectModel more).types
        caveats := (objectModel items).caveats ++ (objectModel more).caveats } := by
  rw [objectModel, List.filterMap_append, List.filterMap_append]
  rfl

theorem compile_append {first second : String} {firstModel secondModel : ObjectModel}
    (firstCompiled : compile first = .ok firstModel)
    (secondCompiled : compile second = .ok secondModel)
    (apart : ∀ name ∈ firstModel.names, name ∉ secondModel.names) :
    compile (first ++ "\n" ++ second) = .ok {
      types := firstModel.types ++ secondModel.types
      caveats := firstModel.caveats ++ secondModel.caveats } := by
  rcases wellFormed_of_compile firstCompiled with ⟨items, firstRead, firstWellFormed, rfl⟩
  rcases wellFormed_of_compile secondCompiled with ⟨more, secondRead, secondWellFormed, rfl⟩
  let distance := byteLength first.toList + 1
  have wellFormed : WellFormed (items ++ more.map (Item.moved distance)) := by
    apply firstWellFormed.append (secondWellFormed.moved distance)
    rw [declaredNames_moved]
    simpa only [mem_names_objectModel] using apart
  rw [compile_of_wellFormed (parse_append firstRead secondRead) wellFormed, objectModel_append,
    objectModel_moved]

end Schema
end PermissionTypes
