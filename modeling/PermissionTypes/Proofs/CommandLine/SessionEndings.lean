import Mathlib.Logic.ExistsUnique
import PermissionTypes.CommandLine.Workspace
import PermissionTypes.Proofs.Files.Writing
import PermissionTypes.Proofs.Source.DirectoryReading

/-! How sessions end. A session that fails before the client module is complete leaves everything as
it was, and a complete module goes to one place. Only there can a failure leave a part of it. -/

namespace PermissionTypes.CommandLine

/-- The environment gives settings, and together with the arguments a filter for the log. -/
def Configured (readers : Readers) (environment : List (String × String))
    (arguments : Arguments) : Prop :=
  ∃ settings, readers.settings? environment = some settings ∧
    readers.acceptsFilter
      (Session.filterText environment arguments.verbosity settings.filter) = true

namespace Disk

def HasRoom (disk : Disk) (content : ByteArray) : Prop :=
  ∀ room fault, disk.full = some (room, fault) → content.size ≤ room

theorem pass_of_hasRoom {disk : Disk} {content : ByteArray} (fits : disk.HasRoom content) :
    disk.pass content = (.ok (), content) := by
  cases full : disk.full with
  | none => simp only [pass, full]
  | some limit =>
      rcases limit with ⟨room, fault⟩
      have enough : ¬ room < content.size := Nat.not_lt.mpr (fits room fault full)
      simp only [pass, full, enough, if_false]

theorem pass_of_exceeds {disk : Disk} {content : ByteArray} {room : Nat} {fault : FileFault}
    (full : disk.full = some (room, fault)) (exceeds : room < content.size) :
    disk.pass content = (.error fault, content.extract 0 room) := by
  simp only [pass, full, exceeds, if_true]

theorem pass_append {disk : Disk} {first second : ByteArray} {fault : FileFault}
    (full : disk.full = some (first.size, fault)) (more : 0 < second.size) :
    disk.pass (first ++ second) = (.error fault, first) := by
  have exceeds : first.size < (first ++ second).size := by
    rw [ByteArray.size_append]
    exact Nat.lt_add_of_pos_right more
  rw [Disk.pass_of_exceeds full exceeds, ByteArray.extract_append_eq_left rfl]

theorem hasRoom_of_pass {disk : Disk} {content : ByteArray}
    (passes : (disk.pass content).1 = .ok ()) : disk.HasRoom content := by
  intro room fault full
  by_contra exceeds
  rw [pass_of_exceeds full (Nat.not_le.mp exceeds)] at passes
  cases passes

end Disk

namespace Workspace

/-! ## What a session reads -/

def schemaText (workspace : Workspace) (arguments : Arguments) : Except Source.Failure String :=
  Generation.load arguments.schemaFile
    (Source.Directory.readBy { root := arguments.folder } workspace.look arguments.schemaFile)

/-- The line that is passed on for the schema, if there is one. -/
def Generates (workspace : Workspace) (arguments : Arguments) (line : String) : Prop :=
  ∃ schema model, workspace.schemaText arguments = .ok schema ∧
    Schema.compile schema = .ok model ∧ line = ClientModule.text model.types ++ "\n"

/-! ## Endings -/

inductive Ending where
  | notGenerated
  | printed
  | notPrinted
  | written
  | notWritten
  deriving DecidableEq, Repr

/-- When a run has a certain ending, and what it comes to then. Only a file that has been opened
makes the files different. It holds the line, or the part of the line that there was room for. -/
inductive Ends (before : Workspace) (arguments : Arguments) :
    Ending → Except SessionFailure Unit × Workspace → Prop
  | notLoaded {cause : Source.Failure} (fails : before.schemaText arguments = .error cause) :
      Ends before arguments .notGenerated
        (.error (.generation (.reading arguments.schemaFile cause)), before)
  | notCompiled {schema : String} {cause : Diagnostic}
      (loads : before.schemaText arguments = .ok schema)
      (fails : Schema.compile schema = .error cause) :
      Ends before arguments .notGenerated
        (.error (.generation (.compiling arguments.schemaFile cause)), before)
  | printed {line : String} (generates : before.Generates arguments line)
      (asked : arguments.output = none) (works : before.terminal = .working) :
      Ends before arguments .printed (.ok (), { before with printed := before.printed ++ line })
  | textRefused {line cause : String} {taken : Nat} (generates : before.Generates arguments line)
      (asked : arguments.output = none) (refuses : before.terminal = .refusingText cause taken) :
      Ends before arguments .notPrinted
        (.error (.output "stdout" cause),
          { before with printed := before.printed ++ String.ofList (line.toList.take taken) })
  | flushRefused {line cause : String} (generates : before.Generates arguments line)
      (asked : arguments.output = none) (refuses : before.terminal = .refusingFlush cause) :
      Ends before arguments .notPrinted
        (.error (.output "stdout" cause), { before with printed := before.printed ++ line })
  | written {line path : String} {files : FileSystem}
      (generates : before.Generates arguments line) (asked : arguments.output = some path)
      (opens : before.disk.unwritable = none) (fits : before.disk.HasRoom line.toUTF8)
      (replaces : before.files.Replaces (.ofString path) line.toUTF8 files) :
      Ends before arguments .written (.ok (), { before with files })
  | pathRefused {line path : String} {fault : FileFault}
      (generates : before.Generates arguments line) (asked : arguments.output = some path)
      (refused : before.files.target (.ofString path) = .error fault) :
      Ends before arguments .notWritten (.error (.output path fault.describe), before)
  | fileRefused {line path : String} {place : Place} {fault : FileFault}
      (generates : before.Generates arguments line) (asked : arguments.output = some path)
      (leads : before.files.target (.ofString path) = .ok place)
      (refused : before.disk.unwritable = some fault) :
      Ends before arguments .notWritten (.error (.output path fault.describe), before)
  | cutShort {line path : String} {room : Nat} {fault : FileFault} {files : FileSystem}
      (generates : before.Generates arguments line) (asked : arguments.output = some path)
      (opens : before.disk.unwritable = none) (full : before.disk.full = some (room, fault))
      (exceeds : room < line.toUTF8.size)
      (replaces : before.files.Replaces (.ofString path) (line.toUTF8.extract 0 room) files) :
      Ends before arguments .notWritten
        (.error (.output path fault.describe), { before with files })

/-- The ending that can be told from where the output should go and what a run comes to. -/
def Ending.told (output : Option String) (result : Except SessionFailure Unit) : Ending :=
  match result, output with
  | .error .configuration, _ => .notGenerated
  | .error (.generation _), _ => .notGenerated
  | .ok (), none => .printed
  | .error (.output _ _), none => .notPrinted
  | .ok (), some _ => .written
  | .error (.output _ _), some _ => .notWritten

theorem Ends.eq_told {before : Workspace} {arguments : Arguments} {ending : Ending}
    {after : Except SessionFailure Unit × Workspace} (ends : Ends before arguments ending after) :
    ending = .told arguments.output after.1 := by
  cases ends with
  | notLoaded _ => rfl
  | notCompiled _ _ => rfl
  | printed _ asked _ => rw [asked, Ending.told]
  | textRefused _ asked _ => rw [asked, Ending.told]
  | flushRefused _ asked _ => rw [asked, Ending.told]
  | written _ asked _ _ _ => rw [asked, Ending.told]
  | pathRefused _ asked _ => rw [asked, Ending.told]
  | fileRefused _ asked _ _ => rw [asked, Ending.told]
  | cutShort _ asked _ _ _ _ => rw [asked, Ending.told]

/-! ## Runs -/

theorem bind_apply (first : StateM Workspace α) (next : α → StateM Workspace β)
    (workspace : Workspace) :
    (first >>= next) workspace = next (first workspace).1 (first workspace).2 := rfl

theorem read_eq (workspace : Workspace) (directory : Source.Directory) (name : String) :
    directory.read host.readFile name workspace =
      (directory.readBy workspace.look name, workspace) := by
  have readFile_eq : host.readFile (directory.pathOf name) workspace =
      (workspace.look (directory.pathOf name), workspace) := rfl
  cases valid : Source.ResourceName.check name.toList with
  | error fault =>
      rw [Source.Directory.readBy_of_invalid valid]
      simp only [Source.Directory.read, valid]
      rfl
  | ok _ =>
      cases read : workspace.look (directory.pathOf name) with
      | ok content =>
          rw [Source.Directory.readBy_of_ok valid read]
          simp only [Source.Directory.read, valid, bind_apply, readFile_eq, read]
          rfl
      | error fault =>
          rw [Source.Directory.readBy_of_error valid read]
          simp only [Source.Directory.read, valid, bind_apply, readFile_eq, read]
          rfl

theorem run_eq (before : Workspace) (arguments : Arguments) :
    before.run arguments =
      match before.schemaText arguments with
      | .error cause => (.error (.generation (.reading arguments.schemaFile cause)), before)
      | .ok schema =>
          match Schema.compile schema with
          | .error cause => (.error (.generation (.compiling arguments.schemaFile cause)), before)
          | .ok model =>
              Session.deliver host arguments.output (ClientModule.text model.types) before := by
  simp only [run, Session.run, bind_apply, read_eq, Generation.clientModule, schemaText]
  cases loaded : Generation.load arguments.schemaFile
      (Source.Directory.readBy { root := arguments.folder } before.look arguments.schemaFile) with
  | error cause => rfl
  | ok schema =>
      cases compiled : Schema.compile schema with
      | error cause => simp only [compiled]; rfl
      | ok model => simp only [compiled]

/-! ## Files that are written -/

theorem writeFile_of_path_refused {before : Workspace} {path : Path} {fault : FileFault}
    (refused : before.files.target path = .error fault) (content : ByteArray) :
    writeFile path content before = (.error fault, before) := by
  have create : before.files.create path = .error fault := by
    rw [FileSystem.create, refused]
    rfl
  simp only [writeFile, bind_apply, openFile, create]
  rfl

theorem writeFile_of_file_refused {before : Workspace} {path : Path} {place : Place}
    {fault : FileFault} (leads : before.files.target path = .ok place)
    (refused : before.disk.unwritable = some fault) (content : ByteArray) :
    writeFile path content before = (.error fault, before) := by
  have create := FileSystem.create_eq_ok_iff.mpr ⟨leads, rfl⟩
  simp only [writeFile, bind_apply, openFile, create, refused]
  rfl

theorem writeFile_of_opens {before : Workspace} {path : Path} {content : ByteArray}
    {files : FileSystem} (opens : before.disk.unwritable = none)
    (write : before.files.write path (before.disk.pass content).2 = .ok files) :
    writeFile path content before = ((before.disk.pass content).1, { before with files }) := by
  rcases FileSystem.write_eq_ok_iff.mp write with ⟨place, leads, rfl⟩
  have create := FileSystem.create_eq_ok_iff.mpr ⟨leads, rfl⟩
  have filled := FileSystem.append_put before.files (FileSystem.target_ne_nil leads) .empty
    (before.disk.pass content).2
  rw [ByteArray.empty_append] at filled
  simp only [writeFile, bind_apply, openFile, create, opens, fillFile, filled]

theorem writeFile_cases (before : Workspace) (path : Path) (content : ByteArray) :
    (∃ fault, before.files.target path = .error fault ∧
      writeFile path content before = (.error fault, before)) ∨
    (∃ place fault, before.files.target path = .ok place ∧
      before.disk.unwritable = some fault ∧
      writeFile path content before = (.error fault, before)) ∨
    ∃ files, before.disk.unwritable = none ∧
      before.files.write path (before.disk.pass content).2 = .ok files ∧
      writeFile path content before = ((before.disk.pass content).1, { before with files }) := by
  cases leads : before.files.target path with
  | error fault => exact .inl ⟨fault, rfl, writeFile_of_path_refused leads content⟩
  | ok place =>
      cases opens : before.disk.unwritable with
      | some fault =>
          exact .inr (.inl ⟨place, fault, rfl, rfl, writeFile_of_file_refused leads opens content⟩)
      | none =>
          rcases FileSystem.exists_write leads (before.disk.pass content).2 with ⟨files, write⟩
          exact .inr (.inr ⟨files, rfl, write, writeFile_of_opens opens write⟩)

/-! ## Deliveries -/

theorem deliver_none {before : Workspace} (text : String) :
    Session.deliver host none text before =
      match print (text ++ "\n") before with
      | (.ok (), after) => (.ok (), after)
      | (.error cause, after) => (.error (.output "stdout" cause), after) := by
  simp only [Session.deliver, bind_apply, host]
  rcases print (text ++ "\n") before with ⟨_ | _, after⟩ <;> rfl

theorem deliver_some {before : Workspace} (path text : String) :
    Session.deliver host (some path) text before =
      match writeFile (.ofString path) (text ++ "\n").toUTF8 before with
      | (.ok (), after) => (.ok (), after)
      | (.error fault, after) => (.error (.output path fault.describe), after) := by
  simp only [Session.deliver, bind_apply, host]
  rcases writeFile (.ofString path) (text ++ "\n").toUTF8 before with ⟨_ | _, after⟩ <;> rfl

theorem deliver_printed {before : Workspace} (works : before.terminal = .working) (text : String) :
    Session.deliver host none text before =
      (.ok (), { before with printed := before.printed ++ (text ++ "\n") }) := by
  simp only [deliver_none, print, works]

theorem deliver_written {before : Workspace} {path text : String} {files : FileSystem}
    (opens : before.disk.unwritable = none) (fits : before.disk.HasRoom (text ++ "\n").toUTF8)
    (write : before.files.write (.ofString path) (text ++ "\n").toUTF8 = .ok files) :
    Session.deliver host (some path) text before = (.ok (), { before with files }) := by
  have passes := Disk.pass_of_hasRoom fits
  rw [deliver_some, writeFile_of_opens opens (by rwa [passes]), passes]

theorem ends_of_print {before : Workspace} {arguments : Arguments} {text : String}
    (generates : before.Generates arguments (text ++ "\n")) (asked : arguments.output = none) :
    ∃ ending, Ends before arguments ending (Session.deliver host none text before) := by
  cases terminal : before.terminal with
  | working =>
      rw [deliver_printed terminal]
      exact ⟨.printed, .printed generates asked terminal⟩
  | refusingText cause taken =>
      have prints : print (text ++ "\n") before = (.error cause, { before with
          printed := before.printed ++ String.ofList ((text ++ "\n").toList.take taken) }) := by
        simp only [print, terminal]
      rw [deliver_none, prints]
      exact ⟨.notPrinted, .textRefused generates asked terminal⟩
  | refusingFlush cause =>
      have prints : print (text ++ "\n") before =
          (.error cause, { before with printed := before.printed ++ (text ++ "\n") }) := by
        simp only [print, terminal]
      rw [deliver_none, prints]
      exact ⟨.notPrinted, .flushRefused generates asked terminal⟩

theorem ends_of_write {before : Workspace} {arguments : Arguments} {path text : String}
    (generates : before.Generates arguments (text ++ "\n"))
    (asked : arguments.output = some path) :
    ∃ ending, Ends before arguments ending (Session.deliver host (some path) text before) := by
  rw [deliver_some]
  rcases writeFile_cases before (.ofString path) (text ++ "\n").toUTF8 with
    ⟨fault, refused, equal⟩ | ⟨place, fault, leads, refused, equal⟩ | ⟨files, opens, write, equal⟩
  · rw [equal]
    exact ⟨.notWritten, .pathRefused generates asked refused⟩
  · rw [equal]
    exact ⟨.notWritten, .fileRefused generates asked leads refused⟩
  · have replaces := FileSystem.replaces_of_write write
    rw [equal]
    by_cases fits : before.disk.HasRoom (text ++ "\n").toUTF8
    · rw [Disk.pass_of_hasRoom fits] at replaces ⊢
      exact ⟨.written, .written generates asked opens fits replaces⟩
    · -- The text is cut short where the room ends, and the failure says why.
      simp only [Disk.HasRoom, not_forall, Nat.not_le] at fits
      rcases fits with ⟨room, fault, full, exceeds⟩
      rw [Disk.pass_of_exceeds full exceeds] at replaces ⊢
      exact ⟨.notWritten, .cutShort generates asked opens full exceeds replaces⟩

theorem ends_of_run (before : Workspace) (arguments : Arguments) :
    ∃ ending, Ends before arguments ending (before.run arguments) := by
  rw [run_eq]
  cases loaded : before.schemaText arguments with
  | error cause => exact ⟨.notGenerated, .notLoaded loaded⟩
  | ok schema =>
      cases compiled : Schema.compile schema with
      | error cause =>
          simp only [compiled]
          exact ⟨.notGenerated, .notCompiled loaded compiled⟩
      | ok model =>
          simp only [compiled]
          have generates : before.Generates arguments (ClientModule.text model.types ++ "\n") :=
            ⟨schema, model, loaded, compiled, rfl⟩
          cases asked : arguments.output with
          | none => exact ends_of_print generates asked
          | some path => exact ends_of_write generates asked

/-! ## Sessions -/

variable {before : Workspace} {arguments : Arguments} {readers : Readers}
  {environment : List (String × String)}

theorem start_of_not_configured (invalid : ¬ Configured readers environment arguments) :
    before.startWith readers environment arguments = (.error .configuration, before) := by
  unfold startWith Session.startWith
  cases settingsRead : readers.settings? environment with
  | none => rfl
  | some settings =>
      have refused : readers.acceptsFilter
          (Session.filterText environment arguments.verbosity settings.filter) = false :=
        Bool.eq_false_iff.mpr fun accepted => invalid ⟨settings, settingsRead, accepted⟩
      simp only [refused]
      rfl

theorem start_of_configured (valid : Configured readers environment arguments) :
    before.startWith readers environment arguments = before.run arguments := by
  rcases valid with ⟨settings, settingsRead, accepted⟩
  simp only [startWith, Session.startWith, settingsRead, accepted, if_true, run]

theorem causes_of_run {cause : GenerationFailure}
    (fails : (before.run arguments).1 = .error (.generation cause)) :
    ∃ step ∈ ["could not read schema", "error compiling schema"],
      SessionFailure.causes (.generation cause) =
        [step ++ " '" ++ arguments.schemaFile ++ "'", cause.describeCause] := by
  rcases ends_of_run before arguments with ⟨ending, ends⟩
  generalize before.run arguments = after at ends fails
  cases ends with
  | notLoaded _ =>
      cases fails
      exact ⟨"could not read schema", by simp, rfl⟩
  | notCompiled _ _ =>
      cases fails
      exact ⟨"error compiling schema", by simp, rfl⟩
  | _ => cases fails

/-- Every session ends in exactly one way, whatever the libraries make of its environment. If they
make nothing of it, nothing at all is changed. A run that does not generate a module changes nothing
either, and its failure has two causes, of which the first names the schema file and the step that
failed. A module that is generated goes to the terminal, where the files stay as they are, or into
the file that is asked for, where nothing is printed and no other file changes. A failure there
names the file, which is as it was or holds a beginning of the module. -/
theorem session_is_all_or_nothing (readers : Readers) (before : Workspace)
    (environment : List (String × String)) (arguments : Arguments) :
    (¬ Configured readers environment arguments →
        before.startWith readers environment arguments = (.error .configuration, before)) ∧
      (Configured readers environment arguments →
        before.startWith readers environment arguments = before.run arguments) ∧
      (∃! ending, Ends before arguments ending (before.run arguments)) ∧
      ∀ cause, (before.run arguments).1 = .error (.generation cause) →
        ∃ step ∈ ["could not read schema", "error compiling schema"],
          SessionFailure.causes (.generation cause) =
            [step ++ " '" ++ arguments.schemaFile ++ "'", cause.describeCause] := by
  refine ⟨start_of_not_configured, start_of_configured, ?_, fun _ => causes_of_run⟩
  rcases ends_of_run before arguments with ⟨ending, ends⟩
  exact ⟨ending, ends, fun other otherEnds => otherEnds.eq_told.trans ends.eq_told.symm⟩

/-! ### A disk with room for six bytes -/

def userSchema : String := "definition user\x7b\x7d"

def userTypes : List ObjectType := [{ name := "user", members := [] }]

theorem compile_userSchema :
    Schema.compile userSchema = .ok { types := userTypes, caveats := [] } := by
  with_unfolding_all rfl

def userArguments : Arguments where
  folder := "."
  schemaFile := "a"
  output := some "b"
  verbosity := 0

def noSpaceLeft : FileFault := .other "No space left on device (os error 28)"

def workspaceNearlyFull : Workspace where
  files := {
    workingDirectory := []
    nodes := [([['a']], .file userSchema.toUTF8), ([['b']], .file "older".toUTF8)] }
  terminal := .working
  printed := ""
  disk := { Disk.working with full := some (6, noSpaceLeft) }

def workspaceFull : Workspace :=
  { workspaceNearlyFull with
    files := workspaceNearlyFull.files.put [['b']] (.file "import".toUTF8) }

theorem schemaText_workspaceNearlyFull :
    workspaceNearlyFull.schemaText userArguments = .ok userSchema := by
  have look : workspaceNearlyFull.look
      (Source.Directory.pathOf { root := userArguments.folder } userArguments.schemaFile) =
        .ok userSchema.toUTF8 := rfl
  rw [schemaText, Source.Directory.readBy_of_ok (by decide) look, Generation.load_toUTF8]

theorem pass_workspaceNearlyFull :
    workspaceNearlyFull.disk.pass (ClientModule.text userTypes ++ "\n").toUTF8 =
      (.error noSpaceLeft, "import".toUTF8) := by
  have word : ClientModule.importLine =
      "import" ++ " \x7b v1 \x7d from \"@authzed/authzed-node\";" := by
    decide
  have begins : ∃ rest, ClientModule.text userTypes = "import" ++ rest := by
    simp only [ClientModule.text, word, String.append_assoc]
    exact ⟨_, rfl⟩
  rcases begins with ⟨rest, begins⟩
  have more : 0 < (rest ++ "\n").toUTF8.size := by
    rw [String.toUTF8_eq_toByteArray, String.toByteArray_append, ByteArray.size_append]
    exact Nat.lt_add_left _ (by decide)
  rw [begins, String.append_assoc, String.toUTF8_eq_toByteArray, String.toByteArray_append]
  exact Disk.pass_append rfl more

theorem configured_userArguments : Configured .standard [] userArguments :=
  ⟨.standard, rfl, rfl⟩

theorem run_workspaceNearlyFull :
    workspaceNearlyFull.run userArguments =
      (.error (.output "b" "No space left on device (os error 28)"), workspaceFull) := by
  have write : workspaceNearlyFull.files.write (.ofString "b")
      (workspaceNearlyFull.disk.pass (ClientModule.text userTypes ++ "\n").toUTF8).2 =
        .ok workspaceFull.files := by
    rw [pass_workspaceNearlyFull]
    rfl
  have asked : userArguments.output = some "b" := rfl
  simp only [run_eq, schemaText_workspaceNearlyFull, compile_userSchema]
  rw [asked, deliver_some, writeFile_of_opens rfl write, pass_workspaceNearlyFull]
  rfl

def senseless : List (String × String) := [("RUST_LOG", "=")]

theorem not_configured_senseless : ¬ Configured .standard senseless userArguments := by
  rintro ⟨settings, _, accepted⟩
  have text : Session.filterText senseless userArguments.verbosity settings.filter = "=" := by
    with_unfolding_all rfl
  have refused : Readers.standard.acceptsFilter "=" = false := by decide
  rw [text, refused] at accepted
  cases accepted

/-- The older file is lost although nothing can take its place. -/
theorem session_is_all_or_nothing_full_disk :
    ¬ Configured .standard senseless userArguments ∧
      workspaceNearlyFull.start senseless userArguments =
        (.error .configuration, workspaceNearlyFull) ∧
      Configured .standard [] userArguments ∧
      workspaceNearlyFull.start [] userArguments =
        (.error (.output "b" "No space left on device (os error 28)"), workspaceFull) ∧
      Ends workspaceNearlyFull userArguments .notWritten
        (workspaceNearlyFull.start [] userArguments) ∧
      workspaceNearlyFull.files.read (.ofString "b") = .ok "older".toUTF8 ∧
      workspaceFull.files.read (.ofString "b") = .ok "import".toUTF8 := by
  rcases session_is_all_or_nothing .standard workspaceNearlyFull senseless userArguments with
    ⟨refuses, _⟩
  rcases session_is_all_or_nothing .standard workspaceNearlyFull [] userArguments with
    ⟨_, starts, ⟨ending, ends, _⟩, _⟩
  have started : workspaceNearlyFull.start [] userArguments =
      workspaceNearlyFull.run userArguments := starts configured_userArguments
  have notWritten : ending = .notWritten := by
    rw [ends.eq_told, run_workspaceNearlyFull]
    rfl
  subst notWritten
  refine ⟨not_configured_senseless, refuses not_configured_senseless, configured_userArguments,
    started.trans run_workspaceNearlyFull, ?_, rfl, rfl⟩
  rwa [started]

end Workspace
end PermissionTypes.CommandLine
