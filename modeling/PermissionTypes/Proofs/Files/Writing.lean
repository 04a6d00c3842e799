import PermissionTypes.Proofs.Files.Walking

/-! Writing a file. The path of the file leads to it afterwards, no other place has changed, and all
other paths lead where they did, so the same can be written again and other files can be read. -/

namespace PermissionTypes.FileSystem

open Schema (bind_eq_ok_iff throw_bind_eq_ok_iff pure_eq_ok_iff)

/-! ## One step -/

theorem step_eq_ok_iff {files : FileSystem} {directory next : Place} {element : List Char} :
    files.step directory element = .ok next ↔
      files.isDirectory directory = true ∧
        (element = Path.here ∧ next = directory ∨
          element = Path.up ∧ next = directory.dropLast ∨
          element ≠ Path.here ∧ element ≠ Path.up ∧
            Text.byteLength element ≤ longestName ∧
            next = directory ++ [element] ∧ (files.node? next).isSome = true) := by
  unfold step
  split
  · rename_i notDirectory
    simp_all
  · rename_i isDirectory
    have directoryHolds : files.isDirectory directory = true := by simpa using isDirectory
    rw [directoryHolds]
    split
    · rename_i here
      have notUp : Path.here ≠ Path.up := by decide
      simp only [here, notUp, Except.ok.injEq, eq_comm (a := next), false_and, ne_eq,
        not_true_eq_false, true_and, or_false]
    · rename_i notHere
      split
      · rename_i up
        have notHere : Path.up ≠ Path.here := by decide
        simp only [up, notHere, Except.ok.injEq, eq_comm (a := next), false_and, false_or, ne_eq,
          not_true_eq_false, not_false_eq_true, true_and, or_false]
      · rename_i notUp
        split
        · rename_i tooLong
          simp [notHere, notUp, Nat.not_le.mpr tooLong]
        · rename_i fits
          simp only [notHere, notUp, Nat.not_lt.mp fits, ne_eq, not_false_eq_true,
            false_and, false_or, true_and]
          split
          · rename_i found
            constructor
            · intro equal
              cases equal
              exact ⟨rfl, found⟩
            · intro holds
              rw [holds.1]
          · rename_i missing
            simp only [reduceCtorEq, false_iff]
            intro holds
            exact missing (holds.1 ▸ holds.2)

/-! ## A file is put somewhere -/

section Put

variable {files : FileSystem} {place : Place} {content : ByteArray}

theorem isDirectory_put_of_isDirectory (notDirectory : files.isDirectory place = false)
    {directory : Place} (holds : files.isDirectory directory = true) :
    (files.put place (.file content)).isDirectory directory = true := by
  have different : directory ≠ place := by
    rintro rfl
    rw [notDirectory] at holds
    cases holds
  rw [isDirectory, node?_put_of_ne _ _ _ _ different]
  exact holds

theorem isSome_node?_put {other : Place} (holds : (files.node? other).isSome = true) :
    ((files.put place (.file content)).node? other).isSome = true := by
  by_cases same : other = place
  · subst same
    cases other with
    | nil => exact holds
    | cons name names =>
        rw [node?_put_self _ _ _ (List.cons_ne_nil name names)]
        rfl
  · rwa [node?_put_of_ne _ _ _ _ same]

/-- A step that could be made can still be made. Where it leads depends on the path only. -/
theorem step_put (notDirectory : files.isDirectory place = false) {directory next : Place}
    {element : List Char} (step : files.step directory element = .ok next) :
    (files.put place (.file content)).step directory element = .ok next := by
  rcases step_eq_ok_iff.mp step with ⟨isDirectory, leads⟩
  refine step_eq_ok_iff.mpr ⟨isDirectory_put_of_isDirectory notDirectory isDirectory, ?_⟩
  rcases leads with here | up | ⟨notHere, notUp, fits, equal, found⟩
  · exact .inl here
  · exact .inr (.inl up)
  · exact .inr (.inr ⟨notHere, notUp, fits, equal, isSome_node?_put found⟩)

theorem follow_put (notDirectory : files.isDirectory place = false)
    {elements : List (List Char)} {start stop : Place}
    (follow : files.follow start elements = .ok stop) :
    (files.put place (.file content)).follow start elements = .ok stop := by
  induction elements generalizing start with
  | nil => exact follow
  | cons element elements induction =>
      rcases bind_eq_ok_iff.mp follow with ⟨next, step, more⟩
      exact bind_eq_ok_iff.mpr ⟨next, step_put notDirectory step, induction more⟩

end Put

theorem put_put (files : FileSystem) (place : Place) (node other : Node) :
    (files.put place node).put place other = files.put place other := by
  simp [put, List.filter_filter]

/-! ## A file is written -/

/-- A file is written below a directory, under the last element of its path. -/
theorem target_eq_ok_iff {files : FileSystem} {path : Path} {place : Place} :
    files.target path = .ok place ↔
      ∃ start parent last, files.start path = .ok start ∧ path.elements.getLast? = some last ∧
        files.follow start path.elements.dropLast = .ok parent ∧
        files.isDirectory parent = true ∧ last ≠ Path.here ∧ last ≠ Path.up ∧
        path.asksForDirectory = false ∧ Text.byteLength last ≤ longestName ∧
        place = parent ++ [last] ∧ files.isDirectory place = false := by
  constructor
  · intro target
    rcases bind_eq_ok_iff.mp target with ⟨start, starts, target⟩
    cases ends : path.elements.getLast? with
    | none =>
        rw [ends] at target
        cases target
    | some last =>
        rw [ends] at target
        simp only [bind_eq_ok_iff, throw_bind_eq_ok_iff, pure_eq_ok_iff, not_or, Bool.not_eq_true,
          Bool.not_eq_true', Bool.not_eq_false, Nat.not_lt] at target
        rcases target with ⟨parent, follow, isDirectory, ⟨notHere, notUp, asks⟩, fits, free, rfl⟩
        exact ⟨start, parent, last, starts, rfl, follow, isDirectory, notHere, notUp, asks, fits,
          rfl, free⟩
  · rintro ⟨start, parent, last, starts, ends, follow, isDirectory, notHere, notUp, asks, fits,
      rfl, free⟩
    refine bind_eq_ok_iff.mpr ⟨start, starts, ?_⟩
    rw [ends]
    simp only [bind_eq_ok_iff, throw_bind_eq_ok_iff, pure_eq_ok_iff, not_or, Bool.not_eq_true,
      Bool.not_eq_true', Bool.not_eq_false, Nat.not_lt]
    exact ⟨parent, follow, isDirectory, ⟨notHere, notUp, asks⟩, fits, free, rfl⟩

theorem target_put {files : FileSystem} {path : Path} {place : Place} {content : ByteArray}
    (target : files.target path = .ok place) :
    (files.put place (.file content)).target path = .ok place := by
  rcases target_eq_ok_iff.mp target with ⟨start, parent, last, starts, ends, follow, isDirectory,
    notHere, notUp, asks, fits, equal, free⟩
  have holds := node?_put_self files place (.file content) (by simp [equal])
  exact target_eq_ok_iff.mpr ⟨start, parent, last, starts, ends, follow_put free follow,
    isDirectory_put_of_isDirectory free isDirectory, notHere, notUp, asks, fits, equal,
    isDirectory_eq_false_of_file holds⟩

/-- If something stands where a file would be written, the path leads to it. -/
theorem locate_of_target {files : FileSystem} {path : Path} {place : Place}
    (target : files.target path = .ok place) (found : (files.node? place).isSome = true) :
    files.locate path = .ok place := by
  rcases target_eq_ok_iff.mp target with ⟨start, parent, last, starts, ends, follow, isDirectory,
    notHere, notUp, asks, fits, equal, free⟩
  have lastStep : files.step parent last = .ok place :=
    step_eq_ok_iff.mpr ⟨isDirectory, .inr (.inr ⟨notHere, notUp, fits, equal, found⟩)⟩
  have elements : path.elements = path.elements.dropLast ++ [last] := by
    rw [List.getLast?_eq_some_iff] at ends
    rcases ends with ⟨front, elements⟩
    rw [elements, List.dropLast_concat]
  have leads : files.follow start path.elements = .ok place := by
    rw [elements, follow_append]
    exact bind_eq_ok_iff.mpr ⟨parent, follow, bind_eq_ok_iff.mpr ⟨place, lastStep, rfl⟩⟩
  rw [locate_eq_follow starts asks, leads]

theorem create_eq_ok_iff {files opened : FileSystem} {path : Path} {place : Place} :
    files.create path = .ok (place, opened) ↔
      files.target path = .ok place ∧ opened = files.put place (.file .empty) := by
  rw [create, bind_eq_ok_iff]
  constructor
  · rintro ⟨found, target, equal⟩
    cases pure_eq_ok_iff.mp equal
    exact ⟨target, rfl⟩
  · rintro ⟨target, rfl⟩
    exact ⟨place, target, rfl⟩

theorem append_put (files : FileSystem) {place : Place} (below : place ≠ [])
    (written content : ByteArray) :
    (files.put place (.file written)).append place content =
      files.put place (.file (written ++ content)) := by
  rw [append, node?_put_self files place _ below]
  exact put_put files place _ _

theorem target_ne_nil {files : FileSystem} {path : Path} {place : Place}
    (target : files.target path = .ok place) : place ≠ [] := by
  rcases target_eq_ok_iff.mp target with ⟨_, _, _, _, _, _, _, _, _, _, _, equal, _⟩
  simp [equal]

theorem write_eq_ok_iff {before after : FileSystem} {path : Path} {content : ByteArray} :
    before.write path content = .ok after ↔
      ∃ place, before.target path = .ok place ∧ after = before.put place (.file content) := by
  rw [write, bind_eq_ok_iff]
  constructor
  · rintro ⟨⟨place, opened⟩, create, equal⟩
    rcases create_eq_ok_iff.mp create with ⟨target, rfl⟩
    have filled := append_put before (target_ne_nil target) .empty content
    rw [ByteArray.empty_append] at filled
    exact ⟨place, target, (pure_eq_ok_iff.mp equal).symm.trans filled⟩
  · rintro ⟨place, target, rfl⟩
    have filled := append_put before (target_ne_nil target) .empty content
    rw [ByteArray.empty_append] at filled
    exact ⟨(place, _), create_eq_ok_iff.mpr ⟨target, rfl⟩, pure_eq_ok_iff.mpr filled⟩

theorem exists_write {files : FileSystem} {path : Path} {place : Place}
    (target : files.target path = .ok place) (content : ByteArray) :
    ∃ after, files.write path content = .ok after :=
  ⟨files.put place (.file content), write_eq_ok_iff.mpr ⟨place, target, rfl⟩⟩

/-- Behind a write the path leads to a place that holds what has been written, and every other place
is as it was. -/
structure Replaces (before : FileSystem) (path : Path) (content : ByteArray)
    (after : FileSystem) : Prop where
  written : ∃ place, after.locate path = .ok place ∧
    after.node? place = some (.file content) ∧
      ∀ other, other ≠ place → after.node? other = before.node? other
  workingDirectory : after.workingDirectory = before.workingDirectory

theorem replaces_of_write {before after : FileSystem} {path : Path} {content : ByteArray}
    (write : before.write path content = .ok after) : before.Replaces path content after := by
  rcases write_eq_ok_iff.mp write with ⟨place, target, rfl⟩
  have holds := node?_put_self before place (.file content) (target_ne_nil target)
  refine ⟨⟨place, locate_of_target (target_put target) (by rw [holds]; rfl), holds, ?_⟩, rfl⟩
  exact fun other different => node?_put_of_ne before place other _ different

theorem Replaces.read {before after : FileSystem} {path : Path} {content : ByteArray}
    (replaces : before.Replaces path content after) : after.read path = .ok content := by
  rcases replaces.written with ⟨place, locate, holds, _⟩
  exact read_of_file locate holds

/-! ## What a write does not change -/

section Write

variable {before after : FileSystem} {path : Path} {content : ByteArray}
  (write : before.write path content = .ok after)

include write

theorem write_again : after.write path content = .ok after := by
  rcases write_eq_ok_iff.mp write with ⟨place, target, rfl⟩
  exact write_eq_ok_iff.mpr ⟨place, target_put target, (put_put before place _ _).symm⟩

theorem locate_of_write {other : Path} {place : Place} (located : before.locate other = .ok place) :
    after.locate other = .ok place := by
  rcases write_eq_ok_iff.mp write with ⟨target, targets, rfl⟩
  rcases target_eq_ok_iff.mp targets with ⟨_, _, _, _, _, _, _, _, _, _, _, _, free⟩
  rcases locate_eq_ok_iff.mp located with ⟨start, starts, follow, suits⟩
  apply locate_eq_ok_iff.mpr
  exact ⟨start, starts, follow_put free follow,
    fun asks => isDirectory_put_of_isDirectory free (suits asks)⟩

/-- A file that the path does not lead to is read as before. -/
theorem read_of_write_elsewhere {other : Path} {found : ByteArray}
    (elsewhere : before.locate path ≠ before.locate other)
    (read : before.read other = .ok found) : after.read other = .ok found := by
  rcases read_eq_ok_iff.mp read with ⟨place, located, holds⟩
  refine read_eq_ok_iff.mpr ⟨place, locate_of_write write located, ?_⟩
  rcases write_eq_ok_iff.mp write with ⟨target, targets, rfl⟩
  -- Both paths would lead to the place that has been written, against the assumption.
  have different : place ≠ target := by
    rintro rfl
    exact elsewhere ((locate_of_target targets (by rw [holds]; rfl)).trans located.symm)
  rwa [node?_put_of_ne before target place _ different]

end Write

end PermissionTypes.FileSystem
