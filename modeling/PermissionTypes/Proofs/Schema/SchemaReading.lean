import PermissionTypes.Proofs.Schema.CaveatReading
import PermissionTypes.Proofs.Schema.DefinitionReading
import PermissionTypes.Schema.Text

/-! Whole schemas are read exactly where the grammar spells them. -/

namespace PermissionTypes.Schema

open Schema.Parser
open Grammar (IsIdentifier)

/-! ## Items -/

theorem of_done_useDirective {read : Item} {start stop : Cursor}
    (equal : useDirective.run start = .done read stop) :
    read.WellShaped ∧ start.Spells (Grammar.item read) stop := by
  rcases done_bind_iff.mp equal with ⟨_, _, word, equal⟩
  have inner := done_within_iff.mp (done_commit_iff.mp equal)
  rcases done_bind_iff.mp inner with ⟨_, _, gapEqual, equal⟩
  rcases done_bind_iff.mp equal with ⟨name, _, nameEqual, result⟩
  rcases done_pure_iff.mp result with ⟨rfl, rfl⟩
  have wordSpells := (done_keyword_iff rfl).mp word
  rcases done_named_identifier_iff.mp nameEqual with ⟨isIdentifier, nameSpells⟩
  have nameSolid := solid_of_spells_name isIdentifier.head nameSpells
  have gapSpells := (spells_of_done_gap gapEqual nameSolid.ne_nil).1
  exact ⟨isIdentifier, (wordSpells.append gapSpells).append nameSpells⟩

theorem run_useDirective {name : Name} (isIdentifier : IsIdentifier name.text.toList)
    {start stop : Cursor} (spells : start.Spells (Grammar.item (.feature name)) stop) :
    useDirective.run start = .done (.feature name) stop := by
  simp only [Grammar.item, Cursor.spells_append_iff] at spells
  rcases spells with ⟨_, ⟨_, word, gapSpells⟩, nameSpells⟩
  have nameSolid := solid_of_spells_name isIdentifier.head nameSpells
  refine (run_bind_of_done ((done_keyword_iff rfl).mpr word)).trans ?_
  refine done_commit_iff.mpr (done_within_iff.mpr ?_)
  refine (run_bind_of_done (run_gap_of_spells gapSpells nameSolid.absent)).trans ?_
  exact run_bind_of_done (done_named_identifier_iff.mpr ⟨isIdentifier, nameSpells⟩)

theorem of_done_item {read : Item} {start stop : Cursor}
    (equal : item.run start = .done read stop) :
    read.WellShaped ∧ start.Spells (Grammar.item read) stop := by
  rcases done_orElse_iff.mp equal with equal | ⟨_, equal⟩
  · exact of_done_definition equal
  · rcases done_orElse_iff.mp equal with equal | ⟨_, equal⟩
    · exact of_done_caveat equal
    · exact of_done_useDirective equal

theorem rejects_definition {start : Cursor} (notAmong : NotAmong ['d'] start.rest) :
    definition.Rejects start :=
  (rejects_keyword_of_notAmong rfl notAmong).bind_left _

theorem rejects_caveat {start : Cursor} (notAmong : NotAmong ['c'] start.rest) :
    caveat.Rejects start :=
  (rejects_keyword_of_notAmong rfl notAmong).bind_left _

theorem rejects_useDirective {start : Cursor} (notAmong : NotAmong ['u'] start.rest) :
    useDirective.Rejects start :=
  (rejects_keyword_of_notAmong rfl notAmong).bind_left _

theorem rejects_item_at_end {start : Cursor} (atEnd : start.rest = []) : item.Rejects start := by
  have nothing {characters : List Char} : NotAmong characters start.rest := by
    rw [atEnd]
    rintro next ⟨⟩
  exact (rejects_definition nothing).orElse
    ((rejects_caveat nothing).orElse (rejects_useDirective nothing))

theorem beginsWith_definition (declared : Definition) :
    BeginsWith "definition" (Grammar.item (.definition declared)) :=
  .append (.append (.append (.append (.append (.word _) _) _) _) _) _

theorem beginsWith_caveat (declared : Caveat) :
    BeginsWith "caveat" (Grammar.item (.caveat declared)) :=
  .append (.append (.append (.append (.append (.append (.append (.append (.append (.append
    (.word _) _) _) _) _) _) _) _) _) _) _

theorem beginsWith_use (name : Name) : BeginsWith "use" (Grammar.item (.feature name)) :=
  .append (.append (.word _) _) _

/-- The keyword of an item says which alternative it is. -/
theorem run_item {written : Item} (shaped : written.WellShaped) {start stop : Cursor}
    (spells : start.Spells (Grammar.item written) stop) :
    item.run start = .done written stop ∧ Solid start.rest ∧ start.offset < stop.offset := by
  cases written with
  | definition declared =>
      rcases (beginsWith_definition declared).head spells rfl with ⟨⟨rest, equal⟩, moved⟩
      have solid : Solid start.rest := equal ▸ solid_of_letter rfl
      exact ⟨done_orElse_iff.mpr (.inl (run_definition shaped spells)), solid, moved⟩
  | caveat declared =>
      rcases (beginsWith_caveat declared).head spells rfl with ⟨⟨rest, equal⟩, moved⟩
      have solid : Solid start.rest := equal ▸ solid_of_letter rfl
      have noDefinition : definition.Rejects start := by
        apply rejects_definition
        rw [equal]
        exact .cons (by decide)
      refine ⟨(run_orElse_of_rejects noDefinition _).trans ?_, solid, moved⟩
      exact done_orElse_iff.mpr (.inl (run_caveat shaped spells))
  | feature name =>
      rcases (beginsWith_use name).head spells rfl with ⟨⟨rest, equal⟩, moved⟩
      have solid : Solid start.rest := equal ▸ solid_of_letter rfl
      have noDefinition : definition.Rejects start := by
        apply rejects_definition
        rw [equal]
        exact .cons (by decide)
      have noCaveat : caveat.Rejects start := by
        apply rejects_caveat
        rw [equal]
        exact .cons (by decide)
      refine ⟨(run_orElse_of_rejects noDefinition _).trans ?_, solid, moved⟩
      exact (run_orElse_of_rejects noCaveat _).trans (run_useDirective shaped spells)

/-! ## Schemas -/

theorem of_done_items {text : List Char} {read : List Item} {stop : Cursor}
    (equal : items.run (.ofText text) = .done read stop) :
    Grammar.schema read text ∧ ∀ item ∈ read, item.WellShaped := by
  rcases done_bind_iff.mp equal with ⟨_, _, front, equal⟩
  rcases done_bind_iff.mp equal with ⟨found, last, itemsEqual, equal⟩
  rcases done_bind_iff.mp equal with ⟨_, _, ends, result⟩
  rcases done_endOfText_iff.mp ends with ⟨rfl, atEnd⟩
  rcases done_pure_iff.mp result with ⟨rfl, rfl⟩
  have shaped := all_of_entries (fun equal => (of_done_item equal).1) itemsEqual
  rcases of_done_entries (fun _ _ _ equal => (of_done_item equal).2) front itemsEqual with
    ⟨middle, itemsSpell, openComment, _⟩
  rcases itemsSpell.append openComment with ⟨whole, reads, _, spelled⟩
  have equalText : text = whole := by
    have equalRest := reads.rest_eq
    rwa [atEnd, List.append_nil] at equalRest
  rw [equalText]
  exact ⟨spelled, shaped⟩

theorem run_items {text : List Char} {written : List Item}
    (shaped : ∀ item ∈ written, item.WellShaped) (spelled : Grammar.schema written text) :
    ∃ stop, items.run (.ofText text) = .done written stop := by
  let stop : Cursor := (Cursor.ofText text).advance text []
  have atEnd : stop.rest = [] := rfl
  have reads : (Cursor.ofText text).Reads text stop :=
    Cursor.reads_advance (List.append_nil text).symm
  have spells : (Cursor.ofText text).Spells
      (Grammar.items written ++ .language Grammar.IsOpenComment) stop :=
    ⟨text, reads, .nil_right text, spelled⟩
  rcases Cursor.spells_append_iff.mp spells with ⟨middle, itemsSpell, openComment⟩
  have complete : ∀ ⦃entry : Item⦄ ⦃start stop : Cursor⦄, entry.WellShaped →
      start.Spells (Grammar.item entry) stop → True →
      item.run start = .done entry stop ∧ Solid start.rest ∧ start.offset < stop.offset ∧
        ∀ before : Cursor, before.Spells Grammar.trivia start → True := by
    intro entry start stop shaped spells _
    rcases run_item shaped spells with ⟨equal, solid, moved⟩
    exact ⟨equal, solid, moved, fun _ _ => trivial⟩
  rcases run_entries (fun _ => True) complete shaped
    (fun _ front => ⟨run_trivia_at_end front openComment atEnd, trivial⟩)
    (rejects_item_at_end atEnd) itemsSpell with ⟨_, frontEqual, itemsEqual, _⟩
  refine ⟨stop, (run_bind_of_done frontEqual).trans ?_⟩
  refine (run_bind_of_done itemsEqual).trans ?_
  have ends : endOfText.run stop = .done () stop := done_endOfText_iff.mpr ⟨rfl, atEnd⟩
  exact run_bind_of_done ends

/-! ## Parsing -/

theorem parse_eq_ok_iff {schema : String} {read : List Item} :
    parse schema = .ok read ↔ ∃ stop, items.run (.ofText schema.toList) = .done read stop := by
  rw [parse, Schema.read]
  cases items.run (.ofText schema.toList) with
  | done found stop => simp
  | rejected failure => simp
  | aborted failure => simp

/-- Every text that the grammar has for some items is read as these items: whatever trivia stands
in its gaps, however deep its parentheses are, and with the place of each name. -/
theorem parse_of_schema {schema : String} {written : List Item}
    (shaped : ∀ item ∈ written, item.WellShaped)
    (spelled : Grammar.schema written schema.toList) : parse schema = .ok written :=
  parse_eq_ok_iff.mpr (run_items shaped spelled)

/-- A text that is read is one of those the grammar has for its items, so nothing of it gets lost
but trivia and parentheses. -/
theorem schema_of_parse {schema : String} {read : List Item} (equal : parse schema = .ok read) :
    Grammar.schema read schema.toList ∧ ∀ item ∈ read, item.WellShaped := by
  rcases parse_eq_ok_iff.mp equal with ⟨stop, done⟩
  exact of_done_items done

/-! ### A schema with all kinds of items -/

def sampleText : String :=
  "use expiration //soon\ndefinition a/b\x7brelation r:a/b#r|c:* with expiration and k " ++
    "permission p=(nil-r)&r->p\x7dcaveat k(x list<int>)\x7bx=='\x7d'\x7d/**/ //end"

def sampleItems : List Item :=
  [.feature ⟨"expiration", 4⟩,
    .definition {
      name := ⟨"a/b", 33⟩
      members := [
        .relation ⟨"r", 46⟩ [
          { type := ⟨"a/b", 48⟩, subject := .relation ⟨"r", 52⟩, traits := [] },
          { type := ⟨"c", 54⟩
            subject := .everyone
            traits := [⟨"expiration", 63⟩, ⟨"k", 78⟩] }],
        .permission ⟨"p", 91⟩
          (.intersection [
            .exclusion .nothing (.member ⟨"r", 98⟩),
            .walk .each ⟨"r", 101⟩ ⟨"p", 104⟩])] },
    .caveat {
      name := ⟨"k", 113⟩
      parameters := [{ name := "x", type := "list<int>" }]
      expression := "x=='\x7d'" }]

set_option maxRecDepth 2000 in
theorem run_sampleText : ∃ stop, items.run (.ofText sampleText.toList) = .done sampleItems stop :=
  ⟨⟨145, []⟩, by with_unfolding_all rfl⟩

theorem parse_of_schema_sample :
    Grammar.schema sampleItems sampleText.toList ∧ parse sampleText = .ok sampleItems := by
  rcases run_sampleText with ⟨stop, done⟩
  rcases of_done_items done with ⟨spelled, shaped⟩
  exact ⟨spelled, parse_of_schema shaped spelled⟩

theorem schema_of_parse_sample : parse sampleText = .ok sampleItems ∧
    Grammar.schema sampleItems sampleText.toList ∧ ∀ item ∈ sampleItems, item.WellShaped :=
  have equal := parse_eq_ok_iff.mpr run_sampleText
  ⟨equal, schema_of_parse equal⟩

end PermissionTypes.Schema
