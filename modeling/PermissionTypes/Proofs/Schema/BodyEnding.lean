import PermissionTypes.Proofs.Schema.CaveatReading
import PermissionTypes.Proofs.Schema.Failing

/-! Where the body of a caveat ends: at the one closing brace that has a balanced text before it. A
text without such a brace is wrong at its end. Up to there the depth is the number of braces that
are open, so no brace is ever taken off a depth of zero. -/

namespace PermissionTypes.Schema

open Schema.Parser

namespace Caveat

/-! ## Open braces -/

def Region.after (region : Region) (character : Char) : Region :=
  match region with
  | .escaped quote => .literal quote
  | .literal quote =>
      if character = '\\' then .escaped quote
      else if character = quote then .code
      else .literal quote
  | .code => if character = '"' ∨ character = '\'' then .literal character else .code

/-- What a character adds to the number of open braces. In a string literal it adds nothing. -/
def Region.weight (region : Region) (character : Char) : Int :=
  if region = .code then
    if character = '{' then 1 else if character = '}' then -1 else 0
  else 0

def openBracesFrom (region : Region) : List Char → Int
  | [] => 0
  | character :: text => region.weight character + openBracesFrom (region.after character) text

/-- How many more braces a text opens than it closes, leaving out its string literals. -/
def openBraces (text : List Char) : Int :=
  openBracesFrom .code text

namespace Nesting

theorem of_after? {nesting next : Nesting} {character : Char}
    (equal : nesting.after? character = some next) :
    next.region = nesting.region.after character ∧
      (next.depth : Int) = nesting.depth + nesting.region.weight character := by
  rcases nesting with ⟨depth, region⟩
  cases region with
  | escaped quote =>
      cases equal
      simp [Region.after, Region.weight]
  | literal quote =>
      simp only [after?] at equal
      split at equal
      · cases equal
        simp_all [Region.after, Region.weight]
      · split at equal <;> cases equal <;> simp_all [Region.after, Region.weight]
  | code =>
      simp only [after?] at equal
      split at equal
      · rename_i isQuote
        cases equal
        rcases isQuote with rfl | rfl <;> simp [Region.after, Region.weight]
      · rename_i notQuote
        split at equal
        · cases equal
          simp_all [Region.after, Region.weight]
        · split at equal
          · cases depth with
            | zero => cases equal
            | succ depth =>
                cases equal
                have region : Region.code.after character = .code := by simp_all [Region.after]
                have weight : Region.code.weight character = -1 := by simp_all [Region.weight]
                have less : (depth : Int) = (depth + 1 : Nat) + -1 := by omega
                rw [region, weight]
                exact ⟨rfl, less⟩
          · cases equal
            simp_all [Region.after, Region.weight]

theorem depth_of_behind? {nesting next : Nesting} {text : List Char}
    (equal : nesting.behind? text = some next) :
    (next.depth : Int) = nesting.depth + openBracesFrom nesting.region text := by
  induction text generalizing nesting with
  | nil =>
      cases equal
      simp [openBracesFrom]
  | cons character text induction =>
      rw [behind?] at equal
      split at equal
      · cases equal
      · rename_i after afterEqual
        rcases of_after? afterEqual with ⟨region, depth⟩
        rw [induction equal, depth, region, openBracesFrom, Int.add_assoc]

theorem exists_behind?_of_append {nesting next : Nesting} {front back : List Char}
    (equal : nesting.behind? (front ++ back) = some next) :
    ∃ middle, nesting.behind? front = some middle := by
  induction front generalizing nesting with
  | nil => exact ⟨nesting, rfl⟩
  | cons character front induction =>
      rw [List.cons_append, behind?] at equal
      split at equal
      · cases equal
      · rename_i after afterEqual
        rw [behind?, afterEqual]
        exact induction equal

end Nesting

theorem exists_behind?_of_splitBody {nesting : Nesting} {text body rest : List Char}
    (split : splitBody nesting text = some (body, rest)) :
    ∃ next, nesting.behind? body = some next := by
  induction text generalizing nesting body with
  | nil => cases split
  | cons character text induction =>
      rw [splitBody] at split
      split at split
      · cases split
        exact ⟨nesting, rfl⟩
      · rename_i after afterEqual
        split at split
        · rename_i inner innerRest innerEqual
          cases split
          rw [Nesting.behind?, afterEqual]
          exact induction innerEqual
        · cases split

theorem exists_behind?_of_not_splitBody {nesting : Nesting} {text : List Char}
    (noSplit : splitBody nesting text = none) : ∃ next, nesting.behind? text = some next := by
  induction text generalizing nesting with
  | nil => exact ⟨nesting, rfl⟩
  | cons character text induction =>
      rw [splitBody] at noSplit
      split at noSplit
      · cases noSplit
      · rename_i after afterEqual
        split at noSplit
        · cases noSplit
        · rename_i innerEqual
          rw [Nesting.behind?, afterEqual]
          exact induction innerEqual

/-! ## Ends of bodies -/

def EndsBody (text body rest : List Char) : Prop :=
  text = body ++ rest ∧ Balanced body ∧ rest.head? = some '}'

theorem EndsBody.unique {text body rest other otherRest : List Char}
    (ends : EndsBody text body rest) (otherEnds : EndsBody text other otherRest) :
    body = other ∧ rest = otherRest := by
  have split := splitBody_outermost_iff.mpr ends
  rw [splitBody_outermost_iff.mpr otherEnds] at split
  cases split
  exact ⟨rfl, rfl⟩

def unclosed (start : Cursor) : Failure where
  stop := start.advance start.rest []
  expectation := .character '}'
  within := []

theorem fails_body_iff {start : Cursor} {failure : Failure} :
    body.Fails start failure ↔
      failure = unclosed start ∧ ¬ ∃ text rest, EndsBody start.rest text rest := by
  simp only [Fails, body]
  cases split : splitBody .outermost start.rest with
  | none =>
      have noEnd : ¬ ∃ text rest, EndsBody start.rest text rest := by
        rintro ⟨text, rest, ends⟩
        rw [splitBody_outermost_iff.mpr ends] at split
        cases split
      simp [noEnd, unclosed, eq_comm]
  | some parts =>
      have ends : ∃ text rest, EndsBody start.rest text rest :=
        ⟨parts.1, parts.2, splitBody_outermost_iff.mp split⟩
      simp [ends]

/-- The beginnings of a text that lie before the end of the body, or all of them, if the body has no
end. -/
def BeforeEnd (start : Cursor) (front : List Char) : Prop :=
  (∃ text stop, body.run start = .done text stop ∧ front <+: text) ∨
    (∃ failure, body.Fails start failure) ∧ front <+: start.rest

theorem exists_behind?_of_beforeEnd {start : Cursor} {front : List Char}
    (before : BeforeEnd start front) :
    ∃ nesting, Nesting.outermost.behind? front = some nesting := by
  rcases before with ⟨text, stop, done, back, rfl⟩ | ⟨⟨failure, fails⟩, back, rest⟩
  · rcases done_body_iff.mp done with ⟨balanced, reads, closes⟩
    have split := splitBody_outermost_iff.mpr ⟨reads.rest_eq, balanced, closes⟩
    rcases exists_behind?_of_splitBody split with ⟨nesting, behind⟩
    exact Nesting.exists_behind?_of_append behind
  · have noSplit : splitBody .outermost start.rest = none := by
      cases split : splitBody .outermost start.rest with
      | none => rfl
      | some parts =>
          exact absurd ⟨_, _, splitBody_outermost_iff.mp split⟩ (fails_body_iff.mp fails).2
    rcases exists_behind?_of_not_splitBody noSplit with ⟨nesting, behind⟩
    rw [← rest] at behind
    exact Nesting.exists_behind?_of_append behind

/-- A body is read up to the closing brace with a balanced text before it. There is at most one such
brace, and where there is none, the failure is at the end of the text. Before the end the number of
open braces is never negative, and it is the depth that is counted. -/
theorem body_ends_where_balanced (start : Cursor) :
    (∀ text stop, body.run start = .done text stop ↔
      start.Reads text stop ∧ EndsBody start.rest text stop.rest) ∧
    (∀ text rest other otherRest, EndsBody start.rest text rest →
      EndsBody start.rest other otherRest → text = other ∧ rest = otherRest) ∧
    (∀ failure, body.Fails start failure ↔
      failure = unclosed start ∧ ¬ ∃ text rest, EndsBody start.rest text rest) ∧
    ∀ front, BeforeEnd start front → 0 ≤ openBraces front ∧
      ∃ region, Nesting.outermost.behind? front = some ⟨(openBraces front).toNat, region⟩ := by
  refine ⟨?_, ?_, ?_, ?_⟩
  · intro text stop
    rw [done_body_iff]
    constructor
    · rintro ⟨balanced, reads, closes⟩
      exact ⟨reads, reads.rest_eq, balanced, closes⟩
    · rintro ⟨reads, _, balanced, closes⟩
      exact ⟨balanced, reads, closes⟩
  · intro text rest other otherRest ends otherEnds
    exact ends.unique otherEnds
  · intro failure
    exact fails_body_iff
  · intro front before
    rcases exists_behind?_of_beforeEnd before with ⟨⟨depth, region⟩, behind⟩
    have depthEqual : (depth : Int) = openBraces front := by
      simpa [Nesting.outermost, openBraces] using Nesting.depth_of_behind? behind
    rw [← depthEqual, Int.toNat_natCast]
    exact ⟨Int.natCast_nonneg depth, region, behind⟩

/-- Braces in literals do not end the body, and an escaped quote does not end its literal. -/
example : splitBody .outermost "\x7b'\x7d'\x7d\"\\\"\x7d\"\x7d;".toList =
    some ("\x7b'\x7d'\x7d\"\\\"\x7d\"".toList, "\x7d;".toList) := by
  decide

end Caveat
end PermissionTypes.Schema
