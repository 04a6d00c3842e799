import PermissionTypes.Proofs.Schema.AcceptedBeginnings
import PermissionTypes.Proofs.Schema.ViolationNames

/-! Every rejection has a place in the text and a reason that fits the place. -/

namespace PermissionTypes.Schema

open Text (Position byteLength)
open Schema.Parser

/-! ## Texts that cannot be read -/

def StartsWithWord (word : String) (text : List Char) : Prop :=
  ∃ rest, text = word.toList ++ rest ∧ ∀ next ∈ rest.head?, isWordCharacter next = false

/-- What the message says about a text that is read up to a place and not further. -/
structure ExplainsSyntax (message : String) (before after : List Char) : Prop where
  meaningful : message ∉ ["incomplete schema", "invalid schema", "unexpected input"]
  topLevel : message = "expected `definition`, `caveat` or `use`" ↔
    (∃ items, parse (String.ofList before) = .ok items) ∧
      ∀ word ∈ ["definition", "caveat", "use"], ¬ StartsWithWord word after

theorem not_startsWithWord_of_rejects {word : String} {start : Cursor}
    (rejects : (keyword word).Rejects start) : ¬ StartsWithWord word start.rest := by
  intro starts
  rcases starts with ⟨rest, equal, ends⟩
  have reads : start.Reads word.toList (start.advance word.toList rest) :=
    Cursor.reads_advance equal
  have done : (keyword word).run start = .done () (start.advance word.toList rest) :=
    (run_bind_of_done (run_exactly reads)).trans (done_notBefore_iff.mpr ⟨rfl, ends⟩)
  rcases rejects with ⟨failure, rejected⟩
  rw [done] at rejected
  cases rejected

theorem rejects_keyword_of_rejects {word : String} {body : Parser α} {start : Cursor}
    (rejects : (keyword word >>= fun _ => commit body).Rejects start) :
    (keyword word).Rejects start := by
  rcases rejects_bind_iff.mp rejects with rejects | ⟨_, _, _, rejects⟩
  · exact rejects
  · exact absurd rejects not_rejects_commit

theorem not_startsWithWord_of_rejects_item {start : Cursor} (rejects : item.Rejects start) :
    ∀ word ∈ ["definition", "caveat", "use"], ¬ StartsWithWord word start.rest := by
  rcases rejects_orElse_iff.mp rejects with ⟨definitionRejects, rejects⟩
  rcases rejects_orElse_iff.mp rejects with ⟨caveatRejects, useRejects⟩
  simp only [List.forall_mem_cons]
  exact ⟨not_startsWithWord_of_rejects (rejects_keyword_of_rejects definitionRejects),
    not_startsWithWord_of_rejects (rejects_keyword_of_rejects caveatRejects),
    not_startsWithWord_of_rejects (rejects_keyword_of_rejects useRejects), List.forall_mem_nil _⟩

theorem rejects_item_of_done_entries {start stop : Cursor} {read : List Item}
    (equal : (entries item).run start = .done read stop) : item.Rejects stop := by
  rcases rejects_bind_iff.mp (rejects_of_done_many equal) with rejects | ⟨_, _, _, rejects⟩
  · exact rejects
  · rcases rejects_bind_iff.mp rejects with rejects | ⟨_, _, _, rejects⟩
    · exact absurd rejects not_rejects_trivia
    · exact absurd rejects not_rejects_pure

theorem parse_of_done_entries {text before : List Char} {read : List Item} {stop : Cursor}
    (equal : entriesBehindTrivia.run (.ofText text) = .done read stop)
    (reads : (Cursor.ofText text).Reads before stop) (inside : stop.rest ≠ []) :
    parse (String.ofList before) = .ok read := by
  rcases done_bind_iff.mp equal with ⟨_, middle, frontEqual, entriesEqual⟩
  have shaped := all_of_entries (fun equal => (of_done_item equal).1) entriesEqual
  rcases of_done_entries (fun _ _ _ equal => (of_done_item equal).2) frontEqual entriesEqual with
    ⟨last, itemsSpell, _, rfl | atEnd⟩
  · rcases itemsSpell with ⟨whole, wholeReads, _, spelled⟩
    have same : whole = before :=
      List.append_cancel_right (wholeReads.rest_eq.symm.trans reads.rest_eq)
    subst same
    refine parse_eq_ok_iff.mpr (run_items shaped ?_)
    rw [String.toList_ofList]
    exact ⟨whole, [], (List.append_nil _).symm, .nil_right _, spelled, .inl rfl⟩
  · exact absurd atEnd inside

theorem explainsSyntax_of_fails {text before : List Char} {failure : Failure}
    (fails : items.Fails (.ofText text) failure)
    (reads : (Cursor.ofText text).Reads before failure.stop) :
    ExplainsSyntax failure.describe before failure.stop.rest := by
  rcases fails_items_iff.mp fails with fails | ⟨read, stop, equal, inside, rfl⟩
  · have isInside := isInside_of_fails_entriesBehindTrivia fails
    have message := isInside.describe_not_mem
    rw [List.mem_cons, not_or] at message
    refine ⟨message.2, iff_of_false message.1 ?_⟩
    intro accepted
    rcases accepted.1 with ⟨read, parsed⟩
    rcases parse_eq_ok_iff.mp parsed with ⟨_, done⟩
    rcases of_done_items done with ⟨spelled, shaped⟩
    rw [String.toList_ofList] at spelled
    exact Nat.lt_irrefl _ (stop_lt_of_fails_behind_schema shaped reads spelled fails)
  · rcases done_bind_iff.mp equal with ⟨_, _, _, entriesEqual⟩
    have noWord :=
      not_startsWithWord_of_rejects_item (rejects_item_of_done_entries entriesEqual)
    have message : "expected `definition`, `caveat` or `use`" ∉
        ["incomplete schema", "invalid schema", "unexpected input"] := by decide
    exact ⟨message, iff_of_true rfl ⟨⟨read, parse_of_done_entries equal reads inside⟩, noWord⟩⟩

/-! ## Schemas that are wrong -/

def ExplainsName (items : List Item) (message : String) (before after : List Char) : Prop :=
  ∃ name ∈ namesOf items, name.offset = byteLength before ∧
    (∃ rest, after = name.text.toList ++ rest) ∧ Occurs name.text message

/-! ## Rejections -/

/-- A diagnostic fits the schema where it is cut in two. -/
structure Explains (schema : String) (diagnostic : Diagnostic) (before after : List Char) :
    Prop where
  text : schema.toList = before ++ after
  position : diagnostic.position = some (Position.ofOffset schema.toList (byteLength before))
  reason : parse schema = .error diagnostic ∧ ExplainsSyntax diagnostic.message before after ∨
    ∃ items, parse schema = .ok items ∧ ExplainsName items diagnostic.message before after

theorem exists_explains_of_parse {schema : String} {diagnostic : Diagnostic}
    (rejected : parse schema = .error diagnostic) :
    ∃ before after, Explains schema diagnostic before after := by
  rcases exists_failure_of_parse rejected with ⟨failure, readEqual, rfl⟩
  have fails := read_eq_error_iff.mp readEqual
  rcases reaches_of_fails fails with ⟨before, reads⟩
  have place : failure.stop.offset = byteLength before := by
    rw [reads.offset_eq, Cursor.ofText, Nat.zero_add]
  refine ⟨before, failure.stop.rest, reads.rest_eq, ?_, .inl ⟨rejected, ?_⟩⟩
  · rw [Diagnostic.atOffset, place]
  · exact explainsSyntax_of_fails fails reads

theorem exists_explains_of_check {schema : String} {items : List Item} {violation : Violation}
    (parsed : parse schema = .ok items) (rejected : check items = .error violation) :
    ∃ before after, Explains schema (violation.diagnostic schema) before after := by
  have isAbout := isAbout_of_check rejected
  rcases name_of_parse parsed isAbout.mem with ⟨before, rest, text, place⟩
  refine ⟨before, _, text, ?_, .inr ⟨items, parsed, ?_⟩⟩
  · rw [Violation.diagnostic, Diagnostic.atOffset, place]
  · exact ⟨violation.name, isAbout.mem, place, ⟨rest, rfl⟩, isAbout.tells.occurs⟩

/-- What is rejected has a place in the text, and the message fits it: it says what is missing where
the text cannot be read further, or which name there is wrong. -/
theorem rejection_has_place_and_reason {schema : String} {diagnostic : Diagnostic}
    (rejected : compile schema = .error diagnostic) :
    ∃ before after, Explains schema diagnostic before after := by
  cases parsed : parse schema with
  | error syntaxDiagnostic =>
      rw [compile, parsed] at rejected
      cases rejected
      exact exists_explains_of_parse parsed
  | ok items =>
      rcases (compile_eq_error_iff parsed).mp rejected with ⟨violation, checked, rfl⟩
      exact exists_explains_of_check parsed checked

/-! ### A text that cannot be read, and one in which a name is wrong -/

theorem compile_rejectedText : compile rejectedText = .error rejectedDiagnostic := by
  rw [compile, parse_rejectedText]

def misnamedText : String :=
  "definition docs\x7brelation own:gone\x7d"

def misnamedDiagnostic : Diagnostic where
  message := "relation `docs#own` references unknown definition `gone`"
  position := some { line := 1, column := 30 }

theorem compile_misnamedText : compile misnamedText = .error misnamedDiagnostic := by
  with_unfolding_all rfl

theorem rejection_has_place_and_reason_sample :
    (compile rejectedText = .error rejectedDiagnostic ∧
      ∃ before after, Explains rejectedText rejectedDiagnostic before after) ∧
    (compile misnamedText = .error misnamedDiagnostic ∧
      ∃ before after, Explains misnamedText misnamedDiagnostic before after) :=
  ⟨⟨compile_rejectedText, rejection_has_place_and_reason compile_rejectedText⟩,
    compile_misnamedText, rejection_has_place_and_reason compile_misnamedText⟩

end PermissionTypes.Schema
