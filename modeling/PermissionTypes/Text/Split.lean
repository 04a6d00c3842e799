/-! Texts cut at a separating character, and pieces joined again. -/

namespace PermissionTypes.Text

/-- The pieces between the separators. There is one piece more than there are separators, so an
empty text has one empty piece. -/
def split (separator : Char) : List Char → List (List Char)
  | [] => [[]]
  | character :: rest =>
      if character = separator then
        [] :: split separator rest
      else
        match split separator rest with
        | [] => [[character]]
        | piece :: pieces => (character :: piece) :: pieces

def join (separator : List Char) : List (List Char) → List Char
  | [] => []
  | [piece] => piece
  | piece :: next :: pieces => piece ++ separator ++ join separator (next :: pieces)

theorem split_ne_nil (separator : Char) (text : List Char) : split separator text ≠ [] := by
  cases text with
  | nil => simp [split]
  | cons character rest =>
      unfold split
      split
      · simp
      · split <;> simp

theorem join_split (separator : Char) (text : List Char) :
    join [separator] (split separator text) = text := by
  induction text with
  | nil => rfl
  | cons character text induction =>
      unfold split
      split
      · rename_i equal
        cases pieces : split separator text with
        | nil => exact absurd pieces (split_ne_nil separator text)
        | cons piece more =>
            rw [pieces] at induction
            simp [join, induction, equal]
      · cases pieces : split separator text with
        | nil => exact absurd pieces (split_ne_nil separator text)
        | cons piece more =>
            rw [pieces] at induction
            cases more with
            | nil => simpa [join] using induction
            | cons next more => simpa [join] using induction

theorem split_of_not_mem {separator : Char} {piece : List Char} (absent : separator ∉ piece) :
    split separator piece = [piece] := by
  induction piece with
  | nil => rfl
  | cons character piece induction =>
      rw [List.mem_cons, not_or] at absent
      rw [split, if_neg (Ne.symm absent.1), induction absent.2]

theorem split_append {separator : Char} {piece : List Char} (absent : separator ∉ piece)
    (rest : List Char) :
    split separator (piece ++ separator :: rest) = piece :: split separator rest := by
  induction piece with
  | nil => simp [split]
  | cons character piece induction =>
      rw [List.mem_cons, not_or] at absent
      rw [List.cons_append, split, if_neg (Ne.symm absent.1), induction absent.2]

theorem split_join {separator : Char} {pieces : List (List Char)} (notNil : pieces ≠ [])
    (absent : ∀ piece ∈ pieces, separator ∉ piece) :
    split separator (join [separator] pieces) = pieces := by
  induction pieces with
  | nil => exact absurd rfl notNil
  | cons piece pieces induction =>
      rcases List.forall_mem_cons.mp absent with ⟨absentHere, absentBehind⟩
      cases pieces with
      | nil => exact split_of_not_mem absentHere
      | cons next pieces =>
          rw [join, List.append_assoc, List.singleton_append, split_append absentHere,
            induction (List.cons_ne_nil next pieces) absentBehind]

end PermissionTypes.Text
