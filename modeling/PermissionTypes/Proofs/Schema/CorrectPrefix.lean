import PermissionTypes.Proofs.Schema.CaveatBeginnings
import PermissionTypes.Proofs.Schema.SchemaReading

/-! Where a schema is rejected, what stands before that place begins a schema that is accepted. -/

namespace PermissionTypes.Schema

open Text (byteLength takeBytes)
open Schema.Parser
open Spelling (anyOf Within)
open Grammar (anyIdentifier anyItem detached_gap_append)

/-! ## Items -/

theorem Grammar.useDirective_within_anyItem :
    Within (word "use" ++ (gap ++ anyIdentifier)) anyItem := by
  apply Within.of_spells
  intro start stop spells
  simp only [anyIdentifier, Cursor.spells_append_iff, Cursor.spells_anyOf_iff] at spells
  rcases spells with ⟨_, word, _, gap, name, isIdentifier, nameSpells⟩
  exact Cursor.spells_anyOf_iff.mpr
    ⟨.feature name, isIdentifier, (word.append gap).append nameSpells⟩

theorem completable_useDirective : useDirective.Completable anyItem := by
  have name := Completable.named_identifier.bind_pure Item.feature
  have behindWord := (name.gap_bind.within .useDirective).commit
  exact (behindWord.keyword_bind "use" rfl (detached_gap_append name.possible)).mono
    Grammar.useDirective_within_anyItem

theorem readsAs_item : item.ReadsAs anyItem :=
  fun read _ _ equal => Cursor.spells_anyOf_iff.mpr ⟨read, of_done_item equal⟩

theorem completable_item : item.Completable anyItem :=
  completable_definition.orElse (completable_caveat.orElse completable_useDirective)

/-! ## Schemas -/

theorem Grammar.entries_within_items :
    Within (trivia ++ (.repeated (anyItem ++ trivia) ++ .exactly []))
      (anyOf (fun written => ∀ item ∈ written, item.WellShaped) items) := by
  have isEntry := Spelling.anyOf_append_within Item.WellShaped item trivia
  apply Within.of_spells
  intro start stop spells
  rw [Spelling.append_exactly_nil, Cursor.spells_append_iff] at spells
  rcases spells with ⟨_, front, entries⟩
  rcases Cursor.spells_anyOf_iff.mp (entries.mono (Spelling.each_of_repeated isEntry)) with
    ⟨written, shaped, spells⟩
  exact Cursor.spells_anyOf_iff.mpr ⟨written, shaped, front.append spells⟩

theorem viable_items :
    items.Viable (anyOf (fun written => ∀ item ∈ written, item.WellShaped) Grammar.items) := by
  have ends (read : List Item) : (endOfText >>= fun _ => pure read).Completable (.exactly []) :=
    { viable := .of_stop (fun _ _ fails => by
        rw [(fails_endOfText_iff.mp (fails_bind_pure_iff.mp fails)).2]) _
      possible := Spelling.possible_exactly [] }
  have entries := Completable.entries_bind readsAs_item completable_item ends
    Spelling.detached_nothing
  exact (entries.trivia_bind.mono Grammar.entries_within_items).viable

theorem read_eq_error_iff {text : List Char} {failure : Failure} :
    read text = .error failure ↔ items.Fails (.ofText text) failure := by
  rw [read, Fails]
  cases items.run (.ofText text) <;> simp

theorem exists_failure_of_parse {schema : String} {diagnostic : Diagnostic}
    (rejected : parse schema = .error diagnostic) :
    ∃ failure, read schema.toList = .error failure ∧
      diagnostic = .atOffset failure.describe schema failure.stop.offset := by
  rw [parse] at rejected
  cases equal : read schema.toList with
  | ok items => simp [equal] at rejected
  | error failure =>
      simp only [equal, Except.error.injEq] at rejected
      exact ⟨failure, rfl, rejected.symm⟩

theorem schema_nil : Grammar.schema [] [] :=
  ⟨[], [], rfl, .nil_left [], ⟨[], [], rfl, .nil_left [], .nil, rfl⟩, .inl rfl⟩

/-- A syntax error is never reported behind the first place where the text stopped being the
beginning of some schema. -/
theorem parse_of_rejected_beginning {schema : String} {diagnostic : Diagnostic}
    (rejected : parse schema = .error diagnostic) :
    ∃ failure before after, read schema.toList = .error failure ∧
      diagnostic = .atOffset failure.describe schema failure.stop.offset ∧
      schema.toList = before ++ after ∧ byteLength before = failure.stop.offset ∧
      ∃ continuation items, parse (String.ofList (before ++ continuation)) = .ok items := by
  rcases exists_failure_of_parse rejected with ⟨failure, readEqual, equal⟩
  rcases viable_items (read_eq_error_iff.mp readEqual) with ⟨before, more, reads, spelled⟩
  have place : byteLength before = failure.stop.offset := by
    rw [reads.offset_eq, Cursor.ofText, Nat.zero_add]
  refine ⟨failure, before, failure.stop.rest, readEqual, equal, reads.rest_eq, place, ?_⟩
  by_cases empty : before = []
  · subst empty
    exact ⟨[], [], parse_eq_ok_iff.mpr (run_items (List.forall_mem_nil _) schema_nil)⟩
  · rcases spelled empty with ⟨written, shaped, itemsSpelled⟩
    refine ⟨more, written, parse_eq_ok_iff.mpr (run_items shaped ?_)⟩
    rw [String.toList_ofList]
    exact ⟨before ++ more, [], (List.append_nil _).symm, .nil_right _, itemsSpelled, .inl rfl⟩

def rejectedText : String :=
  "definition a\x7b\n  permission p = (b &\n\x7d"

def rejectedDiagnostic : Diagnostic where
  message := "expected identifier in expression"
  position := some { line := 3, column := 1 }

theorem parse_rejectedText : parse rejectedText = .error rejectedDiagnostic := by
  with_unfolding_all rfl

theorem parse_of_rejected_beginning_sample :
    parse rejectedText = .error rejectedDiagnostic ∧
    ∃ failure before after, read rejectedText.toList = .error failure ∧
      rejectedDiagnostic = .atOffset failure.describe rejectedText failure.stop.offset ∧
      rejectedText.toList = before ++ after ∧ byteLength before = failure.stop.offset ∧
      ∃ continuation items, parse (String.ofList (before ++ continuation)) = .ok items :=
  ⟨parse_rejectedText, parse_of_rejected_beginning parse_rejectedText⟩

end PermissionTypes.Schema
