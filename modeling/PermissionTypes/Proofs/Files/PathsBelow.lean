import PermissionTypes.Files.System
import PermissionTypes.Source.ResourceName
import PermissionTypes.Proofs.Schema.Verdicts

/-! Paths of names below a directory. The elements of such a path are those of the directory and
then those of the name, so following it is following the directory and then the name. -/

namespace PermissionTypes

namespace Text

theorem split_append_separator (separator : Char) (front back : List Char) :
    split separator (front ++ separator :: back) =
      split separator front ++ split separator back := by
  induction front with
  | nil => simp [split]
  | cons character front induction =>
      by_cases equal : character = separator
      · simp [split, equal, induction]
      · rw [List.cons_append, split, if_neg equal, induction, split, if_neg equal]
        cases pieces : split separator front with
        | nil => exact absurd pieces (split_ne_nil separator front)
        | cons piece more => rfl

theorem split_injective {separator : Char} {text other : List Char}
    (equal : split separator text = split separator other) : text = other := by
  rw [← join_split separator text, equal, join_split]

theorem exists_mem_split {separator : Char} {text : List Char} {character : Char}
    (mem : character ∈ text) (different : character ≠ separator) :
    ∃ piece ∈ split separator text, character ∈ piece := by
  induction text with
  | nil => cases mem
  | cons first text induction =>
      unfold split
      rcases List.mem_cons.mp mem with rfl | behind
      · rw [if_neg different]
        cases split separator text <;> simp
      · rcases induction behind with ⟨piece, inSplit, inPiece⟩
        split
        · exact ⟨piece, List.mem_cons_of_mem _ inSplit, inPiece⟩
        · cases pieces : split separator text with
          | nil => exact absurd pieces (split_ne_nil separator text)
          | cons front more =>
              rcases List.mem_cons.mp (pieces ▸ inSplit) with rfl | further
              · exact ⟨first :: piece, List.mem_cons_self, List.mem_cons_of_mem _ inPiece⟩
              · exact ⟨piece, List.mem_cons_of_mem _ further, inPiece⟩

end Text

/-! ## Names of resources -/

namespace Source.ResourceName

open Schema (throw_bind_eq_ok_iff forM_eq_ok_iff)

theorem checkElement_eq_ok_iff {element : List Char} :
    checkElement element = .ok () ↔
      element ≠ [] ∧ element ≠ Path.here ∧ element ≠ Path.up := by
  unfold checkElement
  split
  · simp_all
  · rename_i filled
    split
    · rename_i dots
      simp only [reduceCtorEq, false_iff]
      rintro ⟨_, notHere, notUp⟩
      exact dots.elim notHere notUp
    · rename_i noDots
      rw [not_or] at noDots
      exact ⟨fun _ => ⟨filled, noDots⟩, fun _ => rfl⟩

theorem check_accepts_iff {name : List Char} :
    check name = .ok () ↔
      '\\' ∉ name ∧ ∀ element ∈ Text.split '/' name,
        element ≠ [] ∧ element ≠ Path.here ∧ element ≠ Path.up := by
  unfold check
  simp only [throw_bind_eq_ok_iff, forM_eq_ok_iff, checkElement_eq_ok_iff]
  constructor
  · rintro ⟨_, noBackslash, _, elements⟩
    exact ⟨noBackslash, elements⟩
  · rintro ⟨noBackslash, elements⟩
    refine ⟨?_, noBackslash, ?_, elements⟩
    · rintro rfl
      exact (elements [] List.mem_cons_self).1 rfl
    · intro absolute
      rcases List.head?_eq_some_iff.mp absolute with ⟨rest, rfl⟩
      exact (elements [] (by simp [Text.split])).1 rfl

variable {name : List Char} (valid : check name = .ok ())

include valid

theorem ne_nil_of_check : name ≠ [] := by
  rintro rfl
  cases valid

theorem head?_ne_of_check : name.head? ≠ some '/' := by
  intro absolute
  rcases List.head?_eq_some_iff.mp absolute with ⟨rest, rfl⟩
  exact ((check_accepts_iff.mp valid).2 [] (by simp [Text.split])).1 rfl

theorem getLast?_ne_of_check : name.getLast? ≠ some '/' := by
  intro ends
  rcases List.getLast?_eq_some_iff.mp ends with ⟨front, rfl⟩
  refine ((check_accepts_iff.mp valid).2 [] ?_).1 rfl
  rw [Text.split_append_separator]
  exact List.mem_append_right _ List.mem_cons_self

end Source.ResourceName

/-! ## Elements -/

namespace Path

theorem elements_append_slash (front back : List Char) :
    elements ⟨front ++ '/' :: back⟩ = elements ⟨front⟩ ++ elements ⟨back⟩ := by
  simp only [elements, Text.split_append_separator, List.filter_append]

theorem elements_below (directory : Path) (name : List Char) :
    (directory.below name).elements = directory.elements ++ elements ⟨name⟩ := by
  unfold below
  split
  · rename_i joined
    rcases Bool.or_eq_true_iff.mp joined with empty | asks
    · rw [List.isEmpty_iff] at empty
      simp [elements, empty, Text.split]
    · have ends : directory.text.getLast? = some '/' := by simpa [asksForDirectory] using asks
      rcases List.getLast?_eq_some_iff.mp ends with ⟨front, equal⟩
      have ofDirectory : directory.elements = elements ⟨front⟩ := by
        have slash := elements_append_slash front []
        rw [← equal] at slash
        simpa [elements, Text.split] using slash
      rw [ofDirectory, ← elements_append_slash, equal, List.append_assoc]
      rfl
  · exact elements_append_slash directory.text name

theorem elements_of_check {name : List Char} (valid : Source.ResourceName.check name = .ok ()) :
    elements ⟨name⟩ = Text.split '/' name := by
  refine List.filter_eq_self.mpr fun element mem => ?_
  have filled := ((Source.ResourceName.check_accepts_iff.mp valid).2 element mem).1
  simpa using filled

theorem text_below (directory : Path) (name : List Char) :
    (directory.below name).text = directory.text ++ name ∨
      directory.text ≠ [] ∧ (directory.below name).text = directory.text ++ '/' :: name := by
  unfold below
  split
  · exact .inl rfl
  · rename_i apart
    refine .inr ⟨fun empty => apart ?_, rfl⟩
    rw [empty]
    rfl

theorem asksForDirectory_below {directory : Path} {name : List Char} (filled : name ≠ [])
    (ends : name.getLast? ≠ some '/') : (directory.below name).asksForDirectory = false := by
  rw [List.getLast?_eq_some_getLast filled] at ends
  rcases text_below directory name with equal | ⟨_, equal⟩
  · simpa [asksForDirectory, equal, List.getLast?_append,
      List.getLast?_eq_some_getLast filled] using ends
  · simpa [asksForDirectory, equal, List.getLast?_append, List.getLast?_cons,
      List.getLast?_eq_some_getLast filled] using ends

theorem isAbsolute_below {directory : Path} {name : List Char} (filled : directory.text ≠ []) :
    (directory.below name).isAbsolute = directory.isAbsolute := by
  cases start : directory.text with
  | nil => exact absurd start filled
  | cons first rest =>
      rcases text_below directory name with equal | ⟨_, equal⟩ <;>
        simp [isAbsolute, equal, start]

/-- A valid name does not decide where its path starts, also below the empty directory. -/
theorem isAbsolute_below_of_check {directory : Path} {name : List Char}
    (valid : Source.ResourceName.check name = .ok ()) :
    (directory.below name).isAbsolute = directory.isAbsolute := by
  by_cases empty : directory.text = []
  · have relative := Source.ResourceName.head?_ne_of_check valid
    simpa [isAbsolute, below, empty] using relative
  · exact isAbsolute_below empty

theorem mem_text_below {directory : Path} {name : List Char} {character : Char}
    (notSlash : character ≠ '/') :
    character ∈ (directory.below name).text ↔ character ∈ directory.text ∨ character ∈ name := by
  rcases text_below directory name with equal | ⟨_, equal⟩ <;> simp [equal, notSlash]

theorem byteLength_le_below (directory : Path) (name : List Char) :
    Text.byteLength directory.text + Text.byteLength name ≤
      Text.byteLength (directory.below name).text := by
  rcases text_below directory name with equal | ⟨_, equal⟩
  · exact Nat.le_of_eq (by rw [equal, Text.byteLength_append])
  · rw [equal, Text.byteLength_append, Text.byteLength_cons]
    omega

end Path
end PermissionTypes
