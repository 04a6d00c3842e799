import PermissionTypes.Proofs.CommandLine.SessionEndings
import PermissionTypes.Proofs.GeneratedModule

/-! Runs that are repeated. A file that is written does not get in the way of what the run has read,
so the next run finds the same schema, generates the same module and leaves everything as it is. -/

namespace PermissionTypes.CommandLine

open Schema (bind_eq_ok_iff pure_eq_ok_iff)

def Arguments.schemaPath (arguments : Arguments) : Path :=
  Source.Directory.pathOf { root := arguments.folder } arguments.schemaFile

namespace Workspace

/-! ## The schema of a run -/

theorem look_eq_ok_iff {workspace : Workspace} {path : Path} {content : ByteArray} :
    workspace.look path = .ok content ↔
      workspace.files.read path = .ok content ∧ workspace.disk.unreadable = none := by
  rw [look, bind_eq_ok_iff]
  cases readable : workspace.disk.unreadable with
  | none => simp [pure_eq_ok_iff]
  | some fault => simp [throw, throwThe, MonadExceptOf.throw]

theorem schemaText_eq_ok_iff {workspace : Workspace} {arguments : Arguments} {schema : String} :
    workspace.schemaText arguments = .ok schema ↔
      ∃ content, Source.ResourceName.check arguments.schemaFile.toList = .ok () ∧
        workspace.look arguments.schemaPath = .ok content ∧
        String.fromUTF8? content = some schema := by
  rw [schemaText, Generation.load, bind_eq_ok_iff]
  refine exists_congr fun content => ?_
  rw [Source.Directory.readBy_eq_ok_iff, and_assoc]
  refine and_congr_right fun _ => and_congr_right fun _ => ?_
  cases String.fromUTF8? content with
  | none => simp [throw, throwThe, MonadExceptOf.throw]
  | some text => exact pure_eq_ok_iff.trans Option.some_inj.symm

theorem Generates.of_read {before after : Workspace} {arguments : Arguments} {line : String}
    (generates : before.Generates arguments line)
    (sameDisk : after.disk = before.disk)
    (reads : ∀ content, before.files.read arguments.schemaPath = .ok content →
      after.files.read arguments.schemaPath = .ok content) :
    after.Generates arguments line := by
  rcases generates with ⟨schema, model, loads, compiled, equal⟩
  rcases schemaText_eq_ok_iff.mp loads with ⟨content, valid, look, decoded⟩
  rcases look_eq_ok_iff.mp look with ⟨read, readable⟩
  have lookAgain : after.look arguments.schemaPath = .ok content :=
    look_eq_ok_iff.mpr ⟨reads content read, sameDisk ▸ readable⟩
  exact ⟨schema, model, schemaText_eq_ok_iff.mpr ⟨content, valid, lookAgain, decoded⟩,
    compiled, equal⟩

/-! ## Runs that go well -/

theorem run_of_generates {workspace : Workspace} {arguments : Arguments} {line : String}
    (generates : workspace.Generates arguments line) :
    ∃ text, line = text ++ "\n" ∧
      workspace.run arguments = Session.deliver host arguments.output text workspace := by
  rcases generates with ⟨schema, model, loads, compiled, equal⟩
  refine ⟨ClientModule.text model.types, equal, ?_⟩
  simp only [run_eq, loads, compiled]

theorem run_printed {workspace : Workspace} {arguments : Arguments} {line : String}
    (generates : workspace.Generates arguments line) (asked : arguments.output = none)
    (works : workspace.terminal = .working) :
    workspace.run arguments =
      (.ok (), { workspace with printed := workspace.printed ++ line }) := by
  rcases run_of_generates generates with ⟨text, rfl, run⟩
  rw [run, asked, deliver_printed works]

theorem written_of_deliver {before after : Workspace} {path text : String}
    (succeeds : Session.deliver host (some path) text before = (.ok (), after)) :
    before.disk.unwritable = none ∧ before.disk.HasRoom (text ++ "\n").toUTF8 ∧
      ∃ files, before.files.write (.ofString path) (text ++ "\n").toUTF8 = .ok files ∧
        after = { before with files } := by
  rw [deliver_some] at succeeds
  rcases writeFile_cases before (.ofString path) (text ++ "\n").toUTF8 with
    ⟨fault, _, equal⟩ | ⟨place, fault, _, _, equal⟩ | ⟨files, opens, write, equal⟩
  · rw [equal] at succeeds
    cases succeeds
  · rw [equal] at succeeds
    cases succeeds
  · rw [equal] at succeeds
    cases passes : (before.disk.pass (text ++ "\n").toUTF8).1 with
    | error fault =>
        rw [passes] at succeeds
        cases succeeds
    | ok _ =>
        have fits := Disk.hasRoom_of_pass passes
        rw [Disk.pass_of_hasRoom fits] at write succeeds
        exact ⟨opens, fits, files, write, (Prod.mk.inj succeeds).2.symm⟩

theorem run_written_iff {before after : Workspace} {arguments : Arguments} {path : String}
    (asked : arguments.output = some path) :
    before.run arguments = (.ok (), after) ↔
      before.disk.unwritable = none ∧
        ∃ line files, before.Generates arguments line ∧ before.disk.HasRoom line.toUTF8 ∧
          before.files.write (.ofString path) line.toUTF8 = .ok files ∧
          after = { before with files } := by
  constructor
  · intro succeeds
    cases loads : before.schemaText arguments with
    | error cause =>
        simp only [run_eq, loads] at succeeds
        cases succeeds
    | ok schema =>
        cases compiled : Schema.compile schema with
        | error cause =>
            simp only [run_eq, loads, compiled] at succeeds
            cases succeeds
        | ok model =>
            have generates : before.Generates arguments (ClientModule.text model.types ++ "\n") :=
              ⟨schema, model, loads, compiled, rfl⟩
            simp only [run_eq, loads, compiled, asked] at succeeds
            rcases written_of_deliver succeeds with ⟨opens, fits, files, write, equal⟩
            exact ⟨opens, _, files, generates, fits, write, equal⟩
  · rintro ⟨opens, line, files, generates, fits, write, rfl⟩
    rcases run_of_generates generates with ⟨text, rfl, run⟩
    rw [run, asked, deliver_written opens fits write]

/-! ## One run after the other -/

/-- A run that has written a file elsewhere than over its schema can be repeated: the second run
succeeds and changes nothing, and a run that prints then prints what the file holds. -/
theorem rerun_changes_nothing {before after : Workspace} {arguments : Arguments} {path : String}
    (asked : arguments.output = some path)
    (succeeds : before.run arguments = (.ok (), after))
    (elsewhere :
      before.files.locate (.ofString path) ≠ before.files.locate arguments.schemaPath) :
    after.run arguments = (.ok (), after) ∧
      ∃ line : String, before.Generates arguments line ∧ after.Generates arguments line ∧
        after.files.read (.ofString path) = .ok line.toUTF8 ∧
        ∀ printed,
          run { after with terminal := .working, printed } { arguments with output := none } =
            (.ok (), { after with terminal := .working, printed := printed ++ line }) := by
  rcases (run_written_iff asked).mp succeeds with
    ⟨opens, line, files, generates, fits, write, rfl⟩
  have reads : ∀ content, before.files.read arguments.schemaPath = .ok content →
      files.read arguments.schemaPath = .ok content :=
    fun _ => FileSystem.read_of_write_elsewhere write elsewhere
  have generatesAgain : { before with files }.Generates arguments line :=
    generates.of_read rfl reads
  refine ⟨?_, line, generates, generatesAgain, (FileSystem.replaces_of_write write).read, ?_⟩
  · exact (run_written_iff asked).mpr
      ⟨opens, line, files, generatesAgain, fits, FileSystem.write_again write, rfl⟩
  · intro printed
    exact run_printed (generates.of_read rfl reads) rfl rfl

/-! ### An older file next to the schema -/

def roundaboutArguments : Arguments where
  folder := "s"
  schemaFile := "a"
  output := some "s/../s/./b"
  verbosity := 0

def filesWithOlder : FileSystem where
  workingDirectory := [['w']]
  nodes := [([['w']], .directory), ([['w'], ['s']], .directory),
    ([['w'], ['s'], ['a']], .file Generation.plainText.toUTF8),
    ([['w'], ['s'], ['b']], .file ⟨#[1]⟩)]

def plainLine : String :=
  ClientModule.text
    [{ name := "doc/item", members := [{ name := "view", kind := .permission }] }] ++ "\n"

/-- Printing is not needed where a file is written. -/
def workspaceWithOlder : Workspace where
  files := filesWithOlder
  terminal := .refusingText "closed"
  printed := ""

def workspaceWithNewer : Workspace where
  files := filesWithOlder.put [['w'], ['s'], ['b']] (.file plainLine.toUTF8)
  terminal := .refusingText "closed"
  printed := ""

theorem generates_plainLine : workspaceWithOlder.Generates roundaboutArguments plainLine := by
  have decoded : String.fromUTF8? Generation.plainText.toUTF8 = some Generation.plainText :=
    dif_pos Generation.plainText.isValidUTF8
  have read : filesWithOlder.read roundaboutArguments.schemaPath =
      .ok Generation.plainText.toUTF8 := rfl
  exact ⟨Generation.plainText, _, schemaText_eq_ok_iff.mpr ⟨_, by decide, read, decoded⟩,
    Generation.compile_plainText, rfl⟩

theorem run_workspaceWithOlder :
    workspaceWithOlder.run roundaboutArguments = (.ok (), workspaceWithNewer) := by
  have write : filesWithOlder.write (.ofString "s/../s/./b") plainLine.toUTF8 =
      .ok workspaceWithNewer.files := rfl
  have fits : workspaceWithOlder.disk.HasRoom plainLine.toUTF8 := fun _ _ full => by cases full
  exact (run_written_iff rfl).mpr
    ⟨rfl, plainLine, workspaceWithNewer.files, generates_plainLine, fits, write, rfl⟩

theorem locate_elsewhere : workspaceWithOlder.files.locate (.ofString "s/../s/./b") ≠
    workspaceWithOlder.files.locate roundaboutArguments.schemaPath := by
  decide

theorem rerun_changes_nothing_roundabout :
    roundaboutArguments.output = some "s/../s/./b" ∧
      workspaceWithOlder.run roundaboutArguments = (.ok (), workspaceWithNewer) ∧
      workspaceWithOlder.files.locate (.ofString "s/../s/./b") ≠
        workspaceWithOlder.files.locate roundaboutArguments.schemaPath ∧
      workspaceWithNewer.run roundaboutArguments = (.ok (), workspaceWithNewer) ∧
      ∃ line : String, workspaceWithOlder.Generates roundaboutArguments line ∧
        workspaceWithNewer.Generates roundaboutArguments line ∧
        workspaceWithNewer.files.read (.ofString "s/../s/./b") = .ok line.toUTF8 ∧
        ∀ printed,
          run { workspaceWithNewer with terminal := .working, printed }
              { roundaboutArguments with output := none } =
            (.ok (), { workspaceWithNewer with
              terminal := .working, printed := printed ++ line }) :=
  ⟨rfl, run_workspaceWithOlder, locate_elsewhere,
    rerun_changes_nothing rfl run_workspaceWithOlder locate_elsewhere⟩

end Workspace
end PermissionTypes.CommandLine
