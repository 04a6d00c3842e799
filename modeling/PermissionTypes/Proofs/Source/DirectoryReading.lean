import PermissionTypes.Files.System
import PermissionTypes.Source.Directory

/-! Reading a resource from a directory while the files stay as they are. -/

namespace PermissionTypes.Source.Directory

def readBy (directory : Directory) (look : Path → Except FileFault ByteArray) (name : String) :
    Except Failure ByteArray :=
  Id.run (directory.read (fun path => pure (look path)) name)

def readIn (directory : Directory) (files : FileSystem) (name : String) :
    Except Failure ByteArray :=
  directory.readBy files.read name

section

variable {directory : Directory} {look : Path → Except FileFault ByteArray} {name : String}

theorem readBy_of_invalid {fault : NameFault}
    (invalid : ResourceName.check name.toList = .error fault) :
    directory.readBy look name = .error (.invalidName name fault) := by
  simp only [readBy, read, invalid]
  rfl

theorem readBy_of_ok (valid : ResourceName.check name.toList = .ok ()) {content : ByteArray}
    (found : look (directory.pathOf name) = .ok content) :
    directory.readBy look name = .ok content := by
  simp only [readBy, read, valid, found]
  rfl

theorem readBy_of_error (valid : ResourceName.check name.toList = .ok ()) {fault : FileFault}
    (refused : look (directory.pathOf name) = .error fault) :
    directory.readBy look name = .error (.ofFault name fault) := by
  simp only [readBy, read, valid, refused]
  rfl

/-- What is read is a file that the path of a valid name leads to. -/
theorem readBy_eq_ok_iff {content : ByteArray} :
    directory.readBy look name = .ok content ↔
      ResourceName.check name.toList = .ok () ∧ look (directory.pathOf name) = .ok content := by
  constructor
  · intro equal
    cases valid : ResourceName.check name.toList with
    | error fault =>
        rw [readBy_of_invalid valid] at equal
        cases equal
    | ok _ =>
        cases found : look (directory.pathOf name) with
        | error fault =>
            rw [readBy_of_error valid found] at equal
            cases equal
        | ok read =>
            rw [readBy_of_ok valid found] at equal
            exact ⟨rfl, congrArg Except.ok (Except.ok.inj equal)⟩
  · rintro ⟨valid, found⟩
    exact readBy_of_ok valid found

end

end PermissionTypes.Source.Directory
