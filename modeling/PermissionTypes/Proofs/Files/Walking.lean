import Mathlib.Data.List.Induction
import PermissionTypes.Files.System
import PermissionTypes.Proofs.Schema.Verdicts

/-! Walking down from a place by names. What the walk comes to says what stands on the way: the walk
arrives, or it comes to a file too early, to a name that is too long, or to a name that nothing
has. -/

namespace PermissionTypes.FileSystem

open Schema (bind_eq_ok_iff pure_eq_ok_iff throw_bind_eq_ok_iff)

/-! ## Well-formed file systems -/

def CanName (name : List Char) : Prop :=
  name ≠ [] ∧ '/' ∉ name ∧ '\x00' ∉ name ∧ name ≠ Path.here ∧ name ≠ Path.up ∧
    Text.byteLength name ≤ longestName

instance (name : List Char) : Decidable (CanName name) :=
  inferInstanceAs (Decidable (_ ∧ _))

/-- Everything stands in a directory, under a name that it can have. -/
structure IsTree (files : FileSystem) : Prop where
  inDirectory : ∀ place name, (files.node? (place ++ [name])).isSome = true →
    files.isDirectory place = true
  named : ∀ place name, (files.node? (place ++ [name])).isSome = true → CanName name

theorem node?_of_isDirectory {files : FileSystem} {place : Place}
    (isDirectory : files.isDirectory place = true) : files.node? place = some .directory := by
  unfold FileSystem.isDirectory at isDirectory
  split at isDirectory
  · assumption
  · cases isDirectory

theorem isSome_node?_of_isDirectory {files : FileSystem} {place : Place}
    (isDirectory : files.isDirectory place = true) : (files.node? place).isSome = true := by
  rw [node?_of_isDirectory isDirectory]
  rfl

theorem isDirectory_eq_false_of_file {files : FileSystem} {place : Place} {content : ByteArray}
    (holds : files.node? place = some (.file content)) : files.isDirectory place = false := by
  rw [isDirectory, holds]

namespace IsTree

variable {files : FileSystem} (tree : files.IsTree)

include tree

theorem isDirectory_of_below {place below : Place} (notNil : below ≠ [])
    (found : (files.node? (place ++ below)).isSome = true) : files.isDirectory place = true := by
  induction below using List.reverseRecOn with
  | nil => exact absurd rfl notNil
  | append_singleton below name induction =>
      rw [← List.append_assoc] at found
      have above := tree.inDirectory _ _ found
      by_cases empty : below = []
      · rwa [empty, List.append_nil] at above
      · exact induction empty (isSome_node?_of_isDirectory above)

theorem isSome_of_below {place below : Place}
    (found : (files.node? (place ++ below)).isSome = true) :
    (files.node? place).isSome = true := by
  by_cases empty : below = []
  · rwa [empty, List.append_nil] at found
  · exact isSome_node?_of_isDirectory (tree.isDirectory_of_below empty found)

theorem canName_of_mem {place below : Place}
    (found : (files.node? (place ++ below)).isSome = true) {name : List Char}
    (mem : name ∈ below) : CanName name := by
  rcases List.append_of_mem mem with ⟨front, back, rfl⟩
  have above : (files.node? (place ++ front ++ [name] ++ back)).isSome = true := by
    simpa using found
  exact tree.named (place ++ front) name (tree.isSome_of_below above)

theorem node?_of_missing {place : Place} {name : List Char}
    (missing : files.node? (place ++ [name]) = none) (below : Place) :
    files.node? (place ++ name :: below) = none := by
  rw [← Option.not_isSome_iff_eq_none]
  intro found
  have regrouped : (files.node? (place ++ [name] ++ below)).isSome = true := by simpa using found
  have above := tree.isSome_of_below regrouped
  rw [missing] at above
  cases above

/-- Whatever stands on a way stands before the first name that is missing on it. -/
theorem before_missing {place front back upper lower : Place} {name : List Char}
    (missing : files.node? (place ++ front ++ [name]) = none)
    (cut : upper ++ lower = front ++ name :: back)
    (found : (files.node? (place ++ upper)).isSome = true) :
    ∃ middle, front = upper ++ middle ∧ lower = middle ++ name :: back := by
  rcases List.append_eq_append_iff.mp cut with
    ⟨middle, frontEqual, lowerEqual⟩ | ⟨middle, upperEqual, backEqual⟩
  · exact ⟨middle, frontEqual, lowerEqual⟩
  · cases middle with
    | nil => exact ⟨[], by simpa using upperEqual.symm, backEqual.symm⟩
    | cons first middle =>
        rw [List.cons_append, List.cons.injEq] at backEqual
        rw [upperEqual, ← backEqual.1, ← List.append_assoc, tree.node?_of_missing missing] at found
        cases found

end IsTree

/-! ## Walks -/

theorem follow_append (files : FileSystem) (start : Place) (front back : List (List Char)) :
    files.follow start (front ++ back) =
      files.follow start front >>= fun middle => files.follow middle back :=
  List.foldlM_append

theorem locate_eq_ok_iff {files : FileSystem} {path : Path} {place : Place} :
    files.locate path = .ok place ↔
      ∃ start, files.start path = .ok start ∧ files.follow start path.elements = .ok place ∧
        (path.asksForDirectory = true → files.isDirectory place = true) := by
  unfold locate
  simp only [bind_eq_ok_iff, throw_bind_eq_ok_iff, pure_eq_ok_iff]
  constructor
  · rintro ⟨start, starts, _, follow, suits, rfl⟩
    exact ⟨start, starts, follow, by simpa using suits⟩
  · rintro ⟨start, starts, follow, suits⟩
    exact ⟨start, starts, place, follow, by simpa using suits, rfl⟩

theorem locate_eq_follow {files : FileSystem} {path : Path} {start : Place}
    (starts : files.start path = .ok start) (asks : path.asksForDirectory = false) :
    files.locate path = files.follow start path.elements := by
  unfold locate
  rw [starts]
  cases follow : files.follow start path.elements with
  | error fault => simp [follow, bind, Except.bind]
  | ok place => simp [follow, asks, bind, Except.bind, pure, Except.pure]

theorem start_eq_ok_iff {files : FileSystem} {path : Path} {place : Place} :
    files.start path = .ok place ↔
      '\x00' ∉ path.text ∧ path.text ≠ [] ∧ Text.byteLength path.text ≤ longestPath ∧
        place = if path.isAbsolute then [] else files.workingDirectory := by
  unfold start
  split
  · rename_i nul
    have mem : '\x00' ∈ path.text := by simpa using nul
    simp [mem]
  · rename_i noNul
    have absent : '\x00' ∉ path.text := by simpa using noNul
    split
    · rename_i empty
      simp [List.isEmpty_iff.mp empty]
    · rename_i filled
      have notNil : path.text ≠ [] := by simpa using filled
      split
      · rename_i tooLong
        simp [Nat.not_le.mpr tooLong]
      · rename_i fits
        rw [Nat.not_lt] at fits
        simp only [absent, notNil, fits, ne_eq, not_false_eq_true, true_and]
        split
        · rw [Except.ok.injEq, eq_comm]
        · rw [Except.ok.injEq, eq_comm]

/-- How a walk down from a place ends, by what it comes to. -/
inductive WalkEnds (files : FileSystem) (start : Place) (names : List (List Char)) :
    Except FileFault Place → Prop
  | arrives (found : (files.node? (start ++ names)).isSome = true) :
      WalkEnds files start names (.ok (start ++ names))
  | atFile (front back : List (List Char)) (content : ByteArray) (split : names = front ++ back)
      (further : back ≠ []) (holds : files.node? (start ++ front) = some (.file content)) :
      WalkEnds files start names (.error .notDirectory)
  | atLongName (front back : List (List Char)) (name : List Char)
      (split : names = front ++ name :: back)
      (isDirectory : files.isDirectory (start ++ front) = true)
      (tooLong : longestName < Text.byteLength name) :
      WalkEnds files start names (.error .nameTooLong)
  | atMissing (front back : List (List Char)) (name : List Char)
      (split : names = front ++ name :: back)
      (isDirectory : files.isDirectory (start ++ front) = true)
      (fits : Text.byteLength name ≤ longestName)
      (missing : files.node? (start ++ front ++ [name]) = none) :
      WalkEnds files start names (.error .missing)

/-- The first step of a walk leads to the place that the rest of it starts from. -/
theorem WalkEnds.cons {files : FileSystem} {start : Place} {name : List Char}
    {names : List (List Char)} {result : Except FileFault Place}
    (ends : files.WalkEnds (start ++ [name]) names result) :
    files.WalkEnds start (name :: names) result := by
  cases ends with
  | arrives found =>
      rw [List.append_assoc, List.singleton_append] at found ⊢
      exact .arrives found
  | atFile front back content split further holds =>
      refine .atFile (name :: front) back content (by rw [split, List.cons_append]) further ?_
      rwa [List.append_assoc, List.singleton_append] at holds
  | atLongName front back long split isDirectory tooLong =>
      refine .atLongName (name :: front) back long (by rw [split, List.cons_append]) ?_ tooLong
      rwa [List.append_assoc, List.singleton_append] at isDirectory
  | atMissing front back absent split isDirectory fits missing =>
      refine .atMissing (name :: front) back absent (by rw [split, List.cons_append]) ?_ fits ?_
      · rwa [List.append_assoc, List.singleton_append] at isDirectory
      · rwa [List.append_assoc start, List.singleton_append] at missing

theorem walkEnds_follow {files : FileSystem} {start : Place} {names : List (List Char)}
    (found : (files.node? start).isSome = true)
    (down : ∀ name ∈ names, name ≠ Path.here ∧ name ≠ Path.up) :
    files.WalkEnds start names (files.follow start names) := by
  induction names generalizing start with
  | nil =>
      have arrived : files.follow start [] = .ok (start ++ []) := by rw [List.append_nil]; rfl
      rw [arrived]
      exact .arrives (by rwa [List.append_nil])
  | cons name names induction =>
      rcases List.forall_mem_cons.mp down with ⟨⟨notHere, notUp⟩, downBehind⟩
      have unfolded : files.follow start (name :: names) =
          files.step start name >>= fun next => files.follow next names := rfl
      rw [unfolded]
      -- The cases are those of a step, in the order in which it looks for them.
      cases isDirectory : files.isDirectory start with
      | false =>
          have stuck : files.step start name = .error .notDirectory := by
            simp [step, isDirectory]
          rw [stuck]
          cases holds : files.node? start with
          | none => simp [holds] at found
          | some node =>
              cases node with
              | directory => simp [FileSystem.isDirectory, holds] at isDirectory
              | file content =>
                  exact .atFile [] (name :: names) content rfl (List.cons_ne_nil _ _)
                    (by rwa [List.append_nil])
      | true =>
          have here : files.isDirectory (start ++ []) = true := by rwa [List.append_nil]
          by_cases tooLong : longestName < Text.byteLength name
          · have stuck : files.step start name = .error .nameTooLong := by
              simp [step, isDirectory, notHere, notUp, tooLong]
            rw [stuck]
            exact .atLongName [] names name rfl here tooLong
          · cases next : files.node? (start ++ [name]) with
            | none =>
                have stuck : files.step start name = .error .missing := by
                  simp [step, isDirectory, notHere, notUp, tooLong, next]
                rw [stuck]
                exact .atMissing [] names name rfl here (Nat.not_lt.mp tooLong)
                  (by rwa [List.append_nil])
            | some node =>
                have made : files.step start name = .ok (start ++ [name]) := by
                  simp [step, isDirectory, notHere, notUp, tooLong, next]
                rw [made]
                exact .cons (induction (by simp [next]) downBehind)

/-- A path that is not looked at is not taken for a path to nothing. -/
theorem locate_of_refused (files : FileSystem) {path : Path}
    (refused : '\x00' ∈ path.text ∨ longestPath < Text.byteLength path.text) :
    ∃ fault, fault ≠ .missing ∧ files.locate path = .error fault := by
  by_cases nul : '\x00' ∈ path.text
  · refine ⟨.nulCharacter, nofun, ?_⟩
    simp [locate, start, nul, bind, Except.bind]
  · have tooLong := refused.resolve_left nul
    have filled : path.text ≠ [] := by
      intro empty
      rw [empty] at tooLong
      cases tooLong
    refine ⟨.nameTooLong, nofun, ?_⟩
    simp [locate, start, nul, filled, tooLong, bind, Except.bind]

/-! ## What a path that leads somewhere reads -/

section Read

variable {files : FileSystem} {path : Path} {place : Place}

theorem read_of_file {content : ByteArray} (located : files.locate path = .ok place)
    (holds : files.node? place = some (.file content)) : files.read path = .ok content := by
  simp [read, located, holds, bind, Except.bind, pure, Except.pure]

theorem read_eq_ok_iff {content : ByteArray} :
    files.read path = .ok content ↔
      ∃ place, files.locate path = .ok place ∧ files.node? place = some (.file content) := by
  constructor
  · intro read
    rcases bind_eq_ok_iff.mp read with ⟨place, located, result⟩
    refine ⟨place, located, ?_⟩
    cases holds : files.node? place with
    | none =>
        rw [holds] at result
        cases result
    | some node =>
        rw [holds] at result
        cases node with
        | directory => cases result
        | file found => rw [pure_eq_ok_iff.mp result]
  · rintro ⟨place, located, holds⟩
    exact read_of_file located holds

theorem read_of_directory (located : files.locate path = .ok place)
    (holds : files.node? place = some .directory) : files.read path = .error .isDirectory := by
  simp [read, located, holds, bind, Except.bind, throw, throwThe, MonadExceptOf.throw]

theorem read_of_refused {fault : FileFault} (refused : files.locate path = .error fault) :
    files.read path = .error fault := by
  simp [read, refused, bind, Except.bind]

end Read

end PermissionTypes.FileSystem
