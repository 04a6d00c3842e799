/-! Lengths in bytes. A character takes one to four bytes in UTF-8, and places in a text are
counted in them. -/

namespace PermissionTypes.Text

def byteLength : List Char → Nat
  | [] => 0
  | character :: rest => character.utf8Size + byteLength rest

@[simp] theorem byteLength_nil : byteLength [] = 0 := rfl

@[simp] theorem byteLength_cons (character : Char) (rest : List Char) :
    byteLength (character :: rest) = character.utf8Size + byteLength rest := rfl

@[simp] theorem byteLength_append (front back : List Char) :
    byteLength (front ++ back) = byteLength front + byteLength back := by
  induction front with
  | nil => simp
  | cons character front induction => simp [induction, Nat.add_assoc]

theorem byteLength_eq_zero_iff {text : List Char} : byteLength text = 0 ↔ text = [] := by
  cases text with
  | nil => simp
  | cons character rest =>
      have positive := character.utf8Size_pos
      simp only [byteLength_cons, reduceCtorEq, iff_false]
      omega

/-- The longest beginning of a text that fits into a number of bytes. A character that would be
cut is left out. -/
def takeBytes : Nat → List Char → List Char
  | _, [] => []
  | budget, character :: rest =>
      if character.utf8Size ≤ budget then
        character :: takeBytes (budget - character.utf8Size) rest
      else []

theorem takeBytes_isPrefix (budget : Nat) (text : List Char) :
    ∃ rest, text = takeBytes budget text ++ rest := by
  induction text generalizing budget with
  | nil => exact ⟨[], rfl⟩
  | cons character text induction =>
      unfold takeBytes
      split
      · rcases induction (budget - character.utf8Size) with ⟨rest, equal⟩
        exact ⟨rest, by rw [List.cons_append, ← equal]⟩
      · exact ⟨character :: text, rfl⟩

theorem byteLength_takeBytes_le (budget : Nat) (text : List Char) :
    byteLength (takeBytes budget text) ≤ budget := by
  induction text generalizing budget with
  | nil => simp [takeBytes]
  | cons character text induction =>
      unfold takeBytes
      split
      · have bound := induction (budget - character.utf8Size)
        simp only [byteLength_cons]
        omega
      · simp

@[simp] theorem takeBytes_byteLength_append (front back : List Char) :
    takeBytes (byteLength front) (front ++ back) = front ++ takeBytes 0 back := by
  induction front with
  | nil => rfl
  | cons character front induction =>
      simp [takeBytes, induction]

@[simp] theorem takeBytes_zero (text : List Char) : takeBytes 0 text = [] := by
  cases text with
  | nil => rfl
  | cons character rest =>
      have positive := character.utf8Size_pos
      simp only [takeBytes]
      split
      · omega
      · rfl

end PermissionTypes.Text
