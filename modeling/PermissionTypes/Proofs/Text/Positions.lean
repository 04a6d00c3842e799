import Mathlib.Data.List.Induction
import Mathlib.Data.Prod.Lex
import Mathlib.Data.Set.Function
import Mathlib.Order.Bounds.Basic
import Mathlib.Order.Interval.Set.Defs
import PermissionTypes.Text.Position

/-! Positions as a scan over the text finds them. They are ordered like the places they belong to,
and a place between two characters can be recovered from its position. -/

namespace PermissionTypes.Text

/-! ## Boundaries -/

def boundaries (text : List Char) : Set Nat :=
  { place | ∃ front back, text = front ++ back ∧ byteLength front = place }

theorem byteLength_takeBytes_mem_boundaries (budget : Nat) (text : List Char) :
    byteLength (takeBytes budget text) ∈ boundaries text := by
  rcases takeBytes_isPrefix budget text with ⟨rest, equal⟩
  exact ⟨takeBytes budget text, rest, equal, rfl⟩

/-- A beginning that fits is a beginning of the longest one. -/
theorem isPrefix_takeBytes {budget : Nat} {front : List Char} (fits : byteLength front ≤ budget)
    (back : List Char) : front <+: takeBytes budget (front ++ back) := by
  induction front generalizing budget with
  | nil => exact List.nil_prefix
  | cons character front induction =>
      rw [byteLength_cons] at fits
      have first : character.utf8Size ≤ budget := by omega
      have more : byteLength front ≤ budget - character.utf8Size := by omega
      rw [List.cons_append, takeBytes, if_pos first, List.cons_prefix_cons]
      exact ⟨rfl, induction more⟩

theorem takeBytes_isPrefix_takeBytes {budget more : Nat} (le : budget ≤ more)
    (text : List Char) : takeBytes budget text <+: takeBytes more text := by
  rcases takeBytes_isPrefix budget text with ⟨rest, equal⟩
  have fits := (byteLength_takeBytes_le budget text).trans le
  have isPrefix := isPrefix_takeBytes fits rest
  rwa [← equal] at isPrefix

theorem byteLength_le_of_isPrefix {front text : List Char} (isPrefix : front <+: text) :
    byteLength front ≤ byteLength text := by
  rcases isPrefix with ⟨back, rfl⟩
  rw [byteLength_append]
  omega

theorem byteLength_takeBytes_of_mem {text : List Char} {place : Nat}
    (boundary : place ∈ boundaries text) : byteLength (takeBytes place text) = place := by
  rcases boundary with ⟨front, back, rfl, rfl⟩
  rw [takeBytes_byteLength_append, takeBytes_zero, List.append_nil]

theorem isGreatest_takeBytes (offset : Nat) (text : List Char) :
    IsGreatest (boundaries text ∩ Set.Iic (min offset (byteLength text)))
      (byteLength (takeBytes offset text)) := by
  constructor
  · refine ⟨byteLength_takeBytes_mem_boundaries offset text, Set.mem_Iic.mpr (le_min ?_ ?_)⟩
    · exact byteLength_takeBytes_le offset text
    · rcases takeBytes_isPrefix offset text with ⟨rest, equal⟩
      exact byteLength_le_of_isPrefix ⟨rest, equal.symm⟩
  · rintro place ⟨⟨front, back, rfl, rfl⟩, fits⟩
    have within : byteLength front ≤ offset := (Set.mem_Iic.mp fits).trans (min_le_left _ _)
    exact byteLength_le_of_isPrefix (isPrefix_takeBytes within back)

namespace Position

/-! ## Scanning -/

def start : Position where
  line := 1
  column := 1

def next (position : Position) (character : Char) : Position :=
  if character = '\n' then { line := position.line + 1, column := 1 }
  else { position with column := position.column + 1 }

def scan (position : Position) (text : List Char) : Position :=
  text.foldl next position

theorem scan_append (position : Position) (front back : List Char) :
    position.scan (front ++ back) = (position.scan front).scan back :=
  List.foldl_append

theorem after_append_singleton (before : List Char) (character : Char) :
    after (before ++ [character]) = (after before).next character := by
  by_cases lineEnd : character = '\n'
  · simp [after, next, lineEnd]
  · simp [after, next, lineEnd]

theorem after_eq_scan (before : List Char) : after before = start.scan before := by
  induction before using List.reverseRecOn with
  | nil => rfl
  | append_singleton before character induction =>
      rw [after_append_singleton, induction, scan_append]
      rfl

/-! ## The order of positions -/

/-- Lines count first, and then columns. -/
def key (position : Position) : Nat ×ₗ Nat :=
  toLex (position.line, position.column)

theorem key_injective : Function.Injective key := by
  intro first second equal
  cases first
  cases second
  simpa [key] using equal

instance : PartialOrder Position :=
  PartialOrder.lift key key_injective

theorem lt_iff {first second : Position} :
    first < second ↔
      first.line < second.line ∨ first.line = second.line ∧ first.column < second.column :=
  Prod.Lex.toLex_lt_toLex

theorem lt_next (position : Position) (character : Char) :
    position < position.next character := by
  unfold next
  split
  · exact lt_iff.mpr (.inl (Nat.lt_succ_self _))
  · exact lt_iff.mpr (.inr ⟨rfl, Nat.lt_succ_self _⟩)

theorem le_scan (position : Position) (text : List Char) : position ≤ position.scan text := by
  induction text generalizing position with
  | nil => exact le_refl position
  | cons character text induction => exact (lt_next position character).le.trans (induction _)

theorem lt_scan {position : Position} {text : List Char} (notNil : text ≠ []) :
    position < position.scan text := by
  cases text with
  | nil => exact absurd rfl notNil
  | cons character text => exact (lt_next position character).trans_le (le_scan _ text)

theorem ofOffset_monotone (text : List Char) : Monotone (ofOffset text) := by
  intro first second le
  rcases takeBytes_isPrefix_takeBytes le text with ⟨between, equal⟩
  rw [ofOffset, ofOffset, ← equal, after_eq_scan, after_eq_scan, scan_append]
  exact le_scan _ between

theorem ofOffset_strictMonoOn (text : List Char) :
    StrictMonoOn (ofOffset text) (boundaries text) := by
  intro first firstBoundary second secondBoundary lt
  rcases takeBytes_isPrefix_takeBytes lt.le text with ⟨between, equal⟩
  have notNil : between ≠ [] := by
    rintro rfl
    rw [List.append_nil] at equal
    have same := byteLength_takeBytes_of_mem secondBoundary
    rw [← equal, byteLength_takeBytes_of_mem firstBoundary] at same
    exact lt.ne same
  rw [ofOffset, ofOffset, ← equal, after_eq_scan, after_eq_scan, scan_append]
  exact lt_scan notNil

/-! ## From positions back to places -/

/-- How many bytes lie between a position and a later one, if a text stands between them. -/
def bytesUntil (wanted : Position) : Position → List Char → Nat
  | _, [] => 0
  | position, character :: rest =>
      if position = wanted then 0
      else character.utf8Size + bytesUntil wanted (position.next character) rest

def offsetIn (text : List Char) (position : Position) : Nat :=
  bytesUntil position start text

theorem bytesUntil_scan (position : Position) (front back : List Char) :
    bytesUntil (position.scan front) position (front ++ back) = byteLength front := by
  induction front generalizing position with
  | nil => cases back <;> simp [bytesUntil, scan]
  | cons character front induction =>
      have further : position ≠ position.scan (character :: front) :=
        (lt_scan (List.cons_ne_nil character front)).ne
      rw [List.cons_append, bytesUntil, if_neg further, byteLength_cons]
      exact congrArg (character.utf8Size + ·) (induction (position.next character))

theorem offsetIn_ofOffset (text : List Char) :
    Set.LeftInvOn (offsetIn text) (ofOffset text) (boundaries text) := by
  rintro place ⟨front, back, rfl, rfl⟩
  rw [ofOffset, takeBytes_byteLength_append, takeBytes_zero, List.append_nil, after_eq_scan]
  exact bytesUntil_scan start front back

/-- The position of a place is the one that a scan has reached at the last boundary up to the
place. Later places have later positions, or the same one if no boundary lies between them, so a
boundary is known by its position. -/
theorem ofOffset_embeds_boundaries (text : List Char) :
    (∀ offset, ∃ front back, text = front ++ back ∧
        IsGreatest (boundaries text ∩ Set.Iic (min offset (byteLength text)))
          (byteLength front) ∧
        ofOffset text offset = start.scan front) ∧
      Monotone (ofOffset text) ∧
      StrictMonoOn (ofOffset text) (boundaries text) ∧
      Set.InjOn (ofOffset text) (boundaries text) ∧
      Set.LeftInvOn (offsetIn text) (ofOffset text) (boundaries text) := by
  refine ⟨fun offset => ?_, ofOffset_monotone text, ofOffset_strictMonoOn text,
    (offsetIn_ofOffset text).injOn, offsetIn_ofOffset text⟩
  rcases takeBytes_isPrefix offset text with ⟨rest, equal⟩
  exact ⟨takeBytes offset text, rest, equal, isGreatest_takeBytes offset text,
    after_eq_scan (takeBytes offset text)⟩

/-- An offset inside `é` means `é` itself, and a line feed is the last character of its line. -/
example : [0, 1, 2, 3, 4, 9].map (ofOffset "aé\nb".toList) =
    [⟨1, 1⟩, ⟨1, 2⟩, ⟨1, 2⟩, ⟨1, 3⟩, ⟨2, 1⟩, ⟨2, 2⟩] := by decide

end Position
end PermissionTypes.Text
