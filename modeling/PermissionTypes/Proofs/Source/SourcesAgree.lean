import PermissionTypes.Generation
import PermissionTypes.Source.Memory
import PermissionTypes.Proofs.Files.PathsBelow
import PermissionTypes.Proofs.Files.Walking
import PermissionTypes.Proofs.Source.DirectoryReading

/-! A memory and a directory that holds its resources as files answer alike. Where there is no
resource, the memory only says so, and the directory says whether something else is in the way. -/

namespace PermissionTypes

open Schema (bind_eq_ok_iff)
open Text (split)

/-! ## Paths below a directory that is there -/

namespace Source

/-- The place of the directory that resources are read from. The empty root is the directory that
paths start from. -/
def Directory.LeadsTo (directory : Directory) (files : FileSystem) (place : Place) : Prop :=
  files.isDirectory place = true ∧
    (directory.root = "" ∧ place = files.workingDirectory ∨
      files.locate (.ofString directory.root) = .ok place)

section Paths

variable {files : FileSystem} {directory : Directory} {place : Place} {name : String}
  (leads : directory.LeadsTo files place) (valid : ResourceName.check name.toList = .ok ())

include leads valid

theorem locate_pathOf (noNul : '\x00' ∉ name.toList)
    (fits : Text.byteLength (directory.pathOf name).text ≤ FileSystem.longestPath) :
    files.locate (directory.pathOf name) = files.follow place (split '/' name.toList) := by
  have filled := ResourceName.ne_nil_of_check valid
  have asks : (directory.pathOf name).asksForDirectory = false :=
    Path.asksForDirectory_below filled (ResourceName.getLast?_ne_of_check valid)
  have elements : (directory.pathOf name).elements =
      (Path.ofString directory.root).elements ++ split '/' name.toList := by
    rw [Directory.pathOf, Path.elements_below, Path.elements_of_check valid]
  rcases leads with ⟨isDirectory, ⟨empty, rfl⟩ | located⟩
  · have text : (directory.pathOf name).text = name.toList := by
      simp [Directory.pathOf, Path.below, Path.ofString, empty]
    have relative : (directory.pathOf name).isAbsolute = false := by
      rw [Directory.pathOf, Path.isAbsolute_below_of_check valid, empty]
      rfl
    have starts : files.start (directory.pathOf name) = .ok files.workingDirectory :=
      FileSystem.start_eq_ok_iff.mpr
        ⟨by rwa [text], by rwa [text], fits, by simp [relative]⟩
    have noElements : (Path.ofString directory.root).elements = [] := by
      rw [empty]
      rfl
    rw [FileSystem.locate_eq_follow starts asks, elements, noElements, List.nil_append]
  · rcases FileSystem.locate_eq_ok_iff.mp located with ⟨start, starts, follow, _⟩
    rcases FileSystem.start_eq_ok_iff.mp starts with ⟨rootNoNul, rootFilled, _, startPlace⟩
    have pathStarts : files.start (directory.pathOf name) = .ok start := by
      refine FileSystem.start_eq_ok_iff.mpr ⟨?_, ?_, fits, ?_⟩
      · rw [Directory.pathOf, Path.mem_text_below (by decide), not_or]
        exact ⟨rootNoNul, noNul⟩
      · rcases Path.text_below (.ofString directory.root) name.toList with equal | ⟨_, equal⟩ <;>
          simp [Directory.pathOf, equal, filled]
      · rw [Directory.pathOf, Path.isAbsolute_below_of_check valid, startPlace]
    rw [FileSystem.locate_eq_follow pathStarts asks, elements, FileSystem.follow_append, follow]
    rfl

end Paths

/-! ## What is in the way of a name -/

/-- What makes the system refuse a name under which there is no file: a directory has it, it leads
through a file, or it is not looked for at all. -/
inductive Obstructed (files : FileSystem) (place : Place) (path : Path) (name : List Char) : Prop
  | byDirectory (isDirectory : files.isDirectory (place ++ split '/' name) = true)
  | byFile (front back : List (List Char)) (content : ByteArray)
      (cut : split '/' name = front ++ back) (further : back ≠ [])
      (holds : files.node? (place ++ front) = some (.file content))
  | byNulCharacter (mem : '\x00' ∈ name)
  | byLongPath (tooLong : FileSystem.longestPath < Text.byteLength path.text)
  | byLongName (front back : List (List Char)) (element : List Char)
      (cut : split '/' name = front ++ element :: back)
      (isDirectory : files.isDirectory (place ++ front) = true)
      (tooLong : FileSystem.longestName < Text.byteLength element)

/-- Below a name that nothing has there is nothing that could be in the way. -/
theorem not_obstructed_of_missing {files : FileSystem} (tree : files.IsTree) {place : Place}
    {path : Path} {name : List Char} (noNul : '\x00' ∉ name)
    (fitsPath : Text.byteLength path.text ≤ FileSystem.longestPath)
    {front back : List (List Char)} {element : List Char}
    (cut : split '/' name = front ++ element :: back)
    (fits : Text.byteLength element ≤ FileSystem.longestName)
    (isDirectory : files.isDirectory (place ++ front) = true)
    (missing : files.node? (place ++ front ++ [element]) = none) :
    ¬ Obstructed files place path name := by
  rintro (standing | ⟨upper, lower, content, equal, further, holds⟩ | nul | tooLong |
    ⟨upper, lower, long, equal, standing, tooLong⟩)
  · have found := FileSystem.isSome_node?_of_isDirectory standing
    rw [cut, ← List.append_assoc, tree.node?_of_missing missing] at found
    cases found
  · rcases tree.before_missing missing (equal.symm.trans cut) (by rw [holds]; rfl) with
      ⟨middle, frontEqual, _⟩
    have above : files.isDirectory (place ++ upper) = true := by
      by_cases empty : middle = []
      · rwa [frontEqual, empty, List.append_nil] at isDirectory
      · refine tree.isDirectory_of_below empty (FileSystem.isSome_node?_of_isDirectory ?_)
        rwa [frontEqual, ← List.append_assoc] at isDirectory
    rw [FileSystem.isDirectory_eq_false_of_file holds] at above
    cases above
  · exact noNul nul
  · exact absurd fitsPath (Nat.not_le.mpr tooLong)
  · rcases tree.before_missing missing (equal.symm.trans cut)
      (FileSystem.isSome_node?_of_isDirectory standing) with ⟨middle, frontEqual, lowerEqual⟩
    -- Either the missing name is the long one, or the long one has a directory below it.
    cases middle with
    | nil =>
        rw [List.nil_append, List.cons.injEq] at lowerEqual
        exact absurd fits (Nat.not_le.mpr (lowerEqual.1 ▸ tooLong))
    | cons next middle =>
        rw [List.cons_append, List.cons.injEq] at lowerEqual
        have onTheWay : long ∈ front := by simp [frontEqual, lowerEqual.1]
        have canName := tree.canName_of_mem
          (FileSystem.isSome_node?_of_isDirectory isDirectory) onTheWay
        exact absurd canName.2.2.2.2.2 (Nat.not_le.mpr tooLong)

/-! ## Files for the resources of a memory -/

namespace Memory

def ofInsertions (insertions : List (String × ByteArray)) : Memory :=
  insertions.foldl (fun memory entry => memory.insert entry.1 entry.2) empty

theorem lookup_insert (memory : Memory) (name other : String) (content : ByteArray) :
    (memory.insert name content).resources.lookup other =
      if other = name then some content else memory.resources.lookup other := by
  unfold insert
  split
  · rename_i same
    rw [same, List.lookup_cons_self]
  · rename_i different
    have notEqual : (other == name) = false := by simpa using different
    rw [List.lookup_cons, notEqual]
    induction memory.resources with
    | nil => rfl
    | cons entry resources induction =>
        rcases entry with ⟨entryName, entryContent⟩
        by_cases same : entryName = name
        · have away : (other == entryName) = false := by simpa [same] using different
          simp [same, List.lookup_cons, notEqual, induction]
        · cases found : other == entryName <;> simp [same, List.lookup_cons, found, induction]

theorem lookup_ofInsertions (insertions : List (String × ByteArray)) (name : String) :
    (ofInsertions insertions).resources.lookup name = insertions.reverse.lookup name := by
  induction insertions using List.reverseRecOn with
  | nil => rfl
  | append_singleton insertions entry induction =>
      rcases entry with ⟨last, content⟩
      have inserted : ofInsertions (insertions ++ [(last, content)]) =
          (ofInsertions insertions).insert last content := by
        simp [ofInsertions]
      rw [inserted, lookup_insert, List.reverse_append, induction]
      by_cases same : name = last
      · simp [same]
      · have notEqual : (name == last) = false := by simpa using same
        simp [same, List.lookup_cons, notEqual]

/-- The files below a place are the resources of the memory, each at the place that its name says.
There may be directories without files. -/
structure StoredIn (memory : Memory) (files : FileSystem) (place : Place) : Prop where
  isTree : files.IsTree
  file_iff : ∀ below, below ≠ [] → ∀ content,
    files.node? (place ++ below) = some (.file content) ↔
      ∃ name, memory.resources.lookup name = some content ∧ split '/' name.toList = below

theorem StoredIn.node?_of_lookup {memory : Memory} {files : FileSystem} {place : Place}
    (stored : memory.StoredIn files place) {name : String} {content : ByteArray}
    (lookup : memory.resources.lookup name = some content) :
    files.node? (place ++ split '/' name.toList) = some (.file content) :=
  (stored.file_iff _ (Text.split_ne_nil '/' name.toList) content).mpr ⟨name, lookup, rfl⟩

theorem StoredIn.lookup_of_node? {memory : Memory} {files : FileSystem} {place : Place}
    (stored : memory.StoredIn files place) {name : String} {content : ByteArray}
    (holds : files.node? (place ++ split '/' name.toList) = some (.file content)) :
    memory.resources.lookup name = some content := by
  rcases (stored.file_iff _ (Text.split_ne_nil '/' name.toList) content).mp holds with
    ⟨other, lookup, equal⟩
  have same : other = name := String.toList_injective (Text.split_injective equal)
  rwa [← same]

theorem read_of_invalid (memory : Memory) {name : String} {fault : NameFault}
    (invalid : ResourceName.check name.toList = .error fault) :
    memory.read name = .error (.invalidName name fault) := by
  simp [read, invalid]

theorem read_of_lookup {memory : Memory} {name : String}
    (valid : ResourceName.check name.toList = .ok ()) {content : ByteArray}
    (lookup : memory.resources.lookup name = some content) : memory.read name = .ok content := by
  simp [read, valid, lookup]

theorem read_of_lookup_none {memory : Memory} {name : String}
    (valid : ResourceName.check name.toList = .ok ())
    (lookup : memory.resources.lookup name = none) :
    memory.read name = .error (.notFound name) := by
  simp [read, valid, lookup]

end Memory

/-! ## The two sources -/

inductive SameAnswer (insertions : List (String × ByteArray)) (files : FileSystem) (place : Place)
    (directory : Directory) (name : String) : Prop
  | invalid (fault : NameFault) (check : ResourceName.check name.toList = .error fault)
      (inMemory : (Memory.ofInsertions insertions).read name = .error (.invalidName name fault))
      (inDirectory : directory.readIn files name = .error (.invalidName name fault))
  | found (content : ByteArray) (last : insertions.reverse.lookup name = some content)
      (inMemory : (Memory.ofInsertions insertions).read name = .ok content)
      (inDirectory : directory.readIn files name = .ok content)
  | nowhere (free : ¬ Obstructed files place (directory.pathOf name) name.toList)
      (inMemory : (Memory.ofInsertions insertions).read name = .error (.notFound name))
      (inDirectory : directory.readIn files name = .error (.notFound name))
  | obstructed (fault : FileFault)
      (obstructed : Obstructed files place (directory.pathOf name) name.toList)
      (inMemory : (Memory.ofInsertions insertions).read name = .error (.notFound name))
      (inDirectory : directory.readIn files name = .error (.unreadable name fault))

section Answers

variable {insertions : List (String × ByteArray)} {files : FileSystem} {place : Place}
  {directory : Directory} {name : String}

theorem sameAnswer_of_obstructed (valid : ResourceName.check name.toList = .ok ())
    (obstructed : Obstructed files place (directory.pathOf name) name.toList)
    (absent : insertions.reverse.lookup name = none) {fault : FileFault}
    (refused : files.read (directory.pathOf name) = .error fault) (notMissing : fault ≠ .missing) :
    SameAnswer insertions files place directory name := by
  refine .obstructed fault obstructed
    (Memory.read_of_lookup_none valid (by rwa [Memory.lookup_ofInsertions])) ?_
  refine (Directory.readBy_of_error valid refused).trans ?_
  cases fault with
  | missing => exact absurd rfl notMissing
  | _ => rfl

section Stored

variable (stored : (Memory.ofInsertions insertions).StoredIn files place)

include stored

theorem lookup_eq_none_of_no_file
    (noFile : ∀ content, files.node? (place ++ split '/' name.toList) ≠ some (.file content)) :
    insertions.reverse.lookup name = none := by
  by_contra inserted
  rcases Option.ne_none_iff_exists'.mp inserted with ⟨content, lookup⟩
  rw [← Memory.lookup_ofInsertions] at lookup
  exact noFile content (stored.node?_of_lookup lookup)

theorem lookup_eq_none_of_nulCharacter (nul : '\x00' ∈ name.toList) :
    insertions.reverse.lookup name = none := by
  refine lookup_eq_none_of_no_file stored fun content holds => ?_
  have notSlash : '\x00' ≠ '/' := by decide
  rcases Text.exists_mem_split nul notSlash with ⟨element, mem, inElement⟩
  have canName := stored.isTree.canName_of_mem (by rw [holds]; rfl) mem
  exact canName.2.2.1 inElement

/-- The walk down to a name says what the directory answers, and the memory has a resource of that
name exactly if the walk arrives at a file. -/
theorem sameAnswer_of_walk (valid : ResourceName.check name.toList = .ok ())
    (noNul : '\x00' ∉ name.toList)
    (fits : Text.byteLength (directory.pathOf name).text ≤ FileSystem.longestPath)
    {result : Except FileFault Place}
    (located : files.locate (directory.pathOf name) = result)
    (ends : files.WalkEnds place (split '/' name.toList) result) :
    SameAnswer insertions files place directory name := by
  have tree := stored.isTree
  cases ends with
  | arrives found =>
      cases node : files.node? (place ++ split '/' name.toList) with
      | none =>
          rw [node] at found
          cases found
      | some standing =>
          cases standing with
          | file content =>
              have lookup := stored.lookup_of_node? node
              exact .found content (by rwa [← Memory.lookup_ofInsertions])
                (Memory.read_of_lookup valid lookup)
                (Directory.readBy_of_ok valid (FileSystem.read_of_file located node))
          | directory =>
              have isDirectory : files.isDirectory (place ++ split '/' name.toList) = true := by
                rw [FileSystem.isDirectory, node]
              refine sameAnswer_of_obstructed valid (.byDirectory isDirectory) ?_
                (FileSystem.read_of_directory located node) (by simp)
              refine lookup_eq_none_of_no_file stored fun content holds => ?_
              rw [node] at holds
              cases holds
  | atFile front back content cut further holds =>
      refine sameAnswer_of_obstructed valid (.byFile front back content cut further holds) ?_
        (FileSystem.read_of_refused located) (by simp)
      -- Nothing stands below a file, so there is no resource of a longer name.
      refine lookup_eq_none_of_no_file stored fun other file => ?_
      rw [cut, ← List.append_assoc] at file
      have isDirectory := tree.isDirectory_of_below further (by rw [file]; rfl)
      rw [FileSystem.isDirectory_eq_false_of_file holds] at isDirectory
      cases isDirectory
  | atLongName front back element cut isDirectory tooLong =>
      refine sameAnswer_of_obstructed valid
        (.byLongName front back element cut isDirectory tooLong) ?_
        (FileSystem.read_of_refused located) (by simp)
      refine lookup_eq_none_of_no_file stored fun content file => ?_
      have onTheWay : element ∈ split '/' name.toList := by simp [cut]
      have canName := tree.canName_of_mem (by rw [file]; rfl) onTheWay
      exact absurd canName.2.2.2.2.2 (Nat.not_le.mpr tooLong)
  | atMissing front back element cut isDirectory fitsElement missing =>
      have absent : insertions.reverse.lookup name = none := by
        refine lookup_eq_none_of_no_file stored fun content file => ?_
        rw [cut, ← List.append_assoc, tree.node?_of_missing missing] at file
        cases file
      exact .nowhere
        (not_obstructed_of_missing tree noNul fits cut fitsElement isDirectory missing)
        (Memory.read_of_lookup_none valid (by rwa [Memory.lookup_ofInsertions]))
        (Directory.readBy_of_error valid (FileSystem.read_of_refused located))

theorem sameAnswer (leads : directory.LeadsTo files place)
    (reachable : insertions.reverse.lookup name ≠ none →
      Text.byteLength (directory.pathOf name).text ≤ FileSystem.longestPath) :
    SameAnswer insertions files place directory name := by
  cases valid : ResourceName.check name.toList with
  | error fault =>
      exact .invalid fault valid (Memory.read_of_invalid _ valid)
        (Directory.readBy_of_invalid valid)
  | ok =>
      by_cases nul : '\x00' ∈ name.toList
      · have inPath : '\x00' ∈ (directory.pathOf name).text :=
          (Path.mem_text_below (by decide)).mpr (.inr nul)
        rcases FileSystem.locate_of_refused files (.inl inPath) with
          ⟨fault, notMissing, refused⟩
        exact sameAnswer_of_obstructed valid (.byNulCharacter nul)
          (lookup_eq_none_of_nulCharacter stored nul) (FileSystem.read_of_refused refused)
          notMissing
      · by_cases fits : Text.byteLength (directory.pathOf name).text ≤ FileSystem.longestPath
        · have located := locate_pathOf leads valid nul fits
          refine sameAnswer_of_walk stored valid nul fits located (FileSystem.walkEnds_follow ?_ ?_)
          · exact FileSystem.isSome_node?_of_isDirectory leads.1
          · exact fun element mem => ((ResourceName.check_accepts_iff.mp valid).2 element mem).2
        · have absent : insertions.reverse.lookup name = none := by
            by_contra inserted
            exact fits (reachable inserted)
          have tooLong := Nat.not_le.mp fits
          rcases FileSystem.locate_of_refused files (.inr tooLong) with
            ⟨fault, notMissing, refused⟩
          exact sameAnswer_of_obstructed valid (.byLongPath tooLong) absent
            (FileSystem.read_of_refused refused) notMissing

end Stored

theorem SameAnswer.read_eq_or_error (same : SameAnswer insertions files place directory name) :
    (Memory.ofInsertions insertions).read name = directory.readIn files name ∨
      (∃ failure, (Memory.ofInsertions insertions).read name = .error failure) ∧
        ∃ failure, directory.readIn files name = .error failure := by
  cases same with
  | invalid fault check inMemory inDirectory => exact .inl (inMemory.trans inDirectory.symm)
  | found content last inMemory inDirectory => exact .inl (inMemory.trans inDirectory.symm)
  | nowhere free inMemory inDirectory => exact .inl (inMemory.trans inDirectory.symm)
  | obstructed fault obstructed inMemory inDirectory =>
      exact .inr ⟨⟨_, inMemory⟩, ⟨_, inDirectory⟩⟩

end Answers

/-- A memory and a directory that holds its resources answer alike to every name. So schemas are
loaded and client modules are generated from the same names of both, with the same results. Only a
resource that is too far from where paths start is out of reach in the directory.

The names of the resources are names that the sources accept, and none of them goes on below
another, because the directory could not hold the files otherwise. -/
theorem memory_and_directory_agree {insertions : List (String × ByteArray)} {files : FileSystem}
    {place : Place} {directory : Directory} (leads : directory.LeadsTo files place)
    (stored : (Memory.ofInsertions insertions).StoredIn files place) (name : String)
    (reachable : insertions.reverse.lookup name ≠ none →
      Text.byteLength (directory.pathOf name).text ≤ FileSystem.longestPath) :
    SameAnswer insertions files place directory name ∧
      (∀ text, Generation.load name ((Memory.ofInsertions insertions).read name) = .ok text ↔
        Generation.load name (directory.readIn files name) = .ok text) ∧
      ∀ compile text,
        Generation.clientModule compile name ((Memory.ofInsertions insertions).read name) =
            .ok text ↔
          Generation.clientModule compile name (directory.readIn files name) = .ok text := by
  have same := sameAnswer stored leads reachable
  refine ⟨same, ?_⟩
  rcases same.read_eq_or_error with equal | ⟨⟨inMemory, memoryFails⟩, inDirectory, directoryFails⟩
  · rw [equal]
    exact ⟨fun text => Iff.rfl, fun compile text => Iff.rfl⟩
  · have noLoad : ∀ failure, Generation.load name (.error failure) = .error failure :=
      fun failure => rfl
    rw [memoryFails, directoryFails]
    constructor
    · intro text
      rw [noLoad, noLoad]
      exact ⟨nofun, nofun⟩
    · intro compile text
      simp only [Generation.clientModule, noLoad, reduceCtorEq]

/-! ### A file that is written twice -/

def writtenTwice : List (String × ByteArray) :=
  [("a/b", ⟨#[1]⟩), ("a/b", ⟨#[2]⟩)]

def filesWrittenTwice : FileSystem where
  workingDirectory := [['w']]
  nodes := [([['w']], .directory), ([['w'], ['a']], .directory),
    ([['w'], ['a'], ['b']], .file ⟨#[2]⟩)]

theorem node?_filesWrittenTwice {place : Place} {node : Node}
    (holds : filesWrittenTwice.node? place = some node) :
    place = [] ∧ node = .directory ∨ (place, node) ∈ filesWrittenTwice.nodes := by
  cases place with
  | nil => exact .inl ⟨rfl, (Option.some.inj holds).symm⟩
  | cons name names =>
      rcases List.lookup_eq_some_iff.mp holds with ⟨front, back, equal, _⟩
      exact .inr (equal ▸ List.mem_append_right front List.mem_cons_self)

theorem isTree_filesWrittenTwice : filesWrittenTwice.IsTree := by
  have entries : ∀ place name, (filesWrittenTwice.node? (place ++ [name])).isSome = true →
      place ++ [name] ∈ [[['w']], [['w'], ['a']], [['w'], ['a'], ['b']]] := by
    intro place name found
    rcases Option.isSome_iff_exists.mp found with ⟨node, holds⟩
    rcases node?_filesWrittenTwice holds with ⟨root, _⟩ | mem
    · simp at root
    · exact List.mem_map_of_mem (f := Prod.fst) mem
  constructor
  · intro place name found
    have mem := List.mem_map_of_mem (f := List.dropLast) (entries place name found)
    rw [List.dropLast_concat] at mem
    have every : ∀ above ∈ [[['w']], [['w'], ['a']], [['w'], ['a'], ['b']]].map List.dropLast,
        filesWrittenTwice.isDirectory above = true := by decide
    exact every place mem
  · intro place name found
    have mem := List.mem_map_of_mem (f := fun place => place.getLastD []) (entries place name found)
    rw [List.getLastD_concat] at mem
    have every : ∀ last ∈ [[['w']], [['w'], ['a']], [['w'], ['a'], ['b']]].map (·.getLastD []),
        FileSystem.CanName last := by decide
    exact every name mem

theorem storedIn_filesWrittenTwice :
    (Memory.ofInsertions writtenTwice).StoredIn filesWrittenTwice [['w']] := by
  refine ⟨isTree_filesWrittenTwice, fun below notNil content => ?_⟩
  constructor
  · intro holds
    rcases node?_filesWrittenTwice holds with ⟨root, _⟩ | mem
    · simp at root
    · simp [filesWrittenTwice] at mem
      rcases mem with ⟨rfl, rfl⟩
      exact ⟨"a/b", rfl, by decide⟩
  · rintro ⟨name, lookup, rfl⟩
    have latest : writtenTwice.reverse = [("a/b", ⟨#[2]⟩), ("a/b", ⟨#[1]⟩)] := rfl
    rw [Memory.lookup_ofInsertions, latest] at lookup
    by_cases same : name = "a/b"
    · rw [same, List.lookup_cons_self] at lookup
      rw [same, ← Option.some.inj lookup]
      rfl
    · have notEqual : (name == "a/b") = false := by simpa using same
      simp [List.lookup_cons, notEqual] at lookup

def slashed (slashes : Nat) : Directory where
  root := String.ofList ('.' :: List.replicate slashes '/')

theorem byteLength_slashes (slashes : Nat) :
    Text.byteLength (List.replicate slashes '/') = slashes := by
  induction slashes with
  | zero => rfl
  | succ slashes induction =>
      have size : Char.utf8Size '/' = 1 := rfl
      rw [List.replicate_succ, Text.byteLength_cons, induction, size, Nat.add_comm]

theorem text_slashed (slashes : Nat) :
    (Path.ofString (slashed slashes).root).text = '.' :: List.replicate slashes '/' :=
  String.toList_ofList

theorem byteLength_slashed (slashes : Nat) :
    Text.byteLength (Path.ofString (slashed slashes).root).text = slashes + 1 := by
  have size : Char.utf8Size '.' = 1 := rfl
  rw [text_slashed, Text.byteLength_cons, byteLength_slashes, size, Nat.add_comm]

theorem elements_slashed (slashes : Nat) :
    (Path.ofString (slashed slashes).root).elements = [Path.here] := by
  rw [slashed, Path.ofString, String.toList_ofList]
  induction slashes with
  | zero => rfl
  | succ slashes induction =>
      rw [List.replicate_succ', ← List.cons_append, Path.elements_append_slash, induction]
      rfl

theorem leadsTo_slashed {slashes : Nat} (fits : slashes < FileSystem.longestPath) :
    (slashed slashes).LeadsTo filesWrittenTwice [['w']] := by
  have isDirectory : filesWrittenTwice.isDirectory [['w']] = true := by decide
  have starts : filesWrittenTwice.start (.ofString (slashed slashes).root) = .ok [['w']] := by
    refine FileSystem.start_eq_ok_iff.mpr ⟨?_, ?_, ?_, ?_⟩
    · simp [text_slashed, List.mem_replicate]
    · simp [text_slashed]
    · rw [byteLength_slashed]
      omega
    · simp [Path.isAbsolute, text_slashed, filesWrittenTwice]
  have follow : filesWrittenTwice.follow [['w']] [Path.here] = .ok [['w']] := by decide
  refine ⟨isDirectory, .inr ?_⟩
  simp [FileSystem.locate, starts, elements_slashed, follow, isDirectory, bind, Except.bind, pure,
    Except.pure]

theorem memory_and_directory_agree_sample :
    SameAnswer writtenTwice filesWrittenTwice [['w']] (slashed 0) "a/b" :=
  (memory_and_directory_agree (leadsTo_slashed (by decide)) storedIn_filesWrittenTwice "a/b"
    (fun _ => by decide)).1

/-- The file is there, but so many slashes stand before it that the system does not look for it. -/
theorem not_forall_sameAnswer :
    ¬ ∀ (insertions : List (String × ByteArray)) (files : FileSystem) (place : Place)
        (directory : Directory),
      (∀ entry ∈ insertions, ResourceName.check entry.1.toList = .ok ()) →
      (∀ upper ∈ insertions, ∀ lower ∈ insertions, ∀ rest,
        lower.1.toList ≠ upper.1.toList ++ '/' :: rest) →
      directory.LeadsTo files place →
      (Memory.ofInsertions insertions).StoredIn files place →
      ∀ name, SameAnswer insertions files place directory name := by
  intro always
  have oneName : ∀ entry ∈ writtenTwice, entry.1 = "a/b" := by decide
  have noneBelow : ∀ upper ∈ writtenTwice, ∀ lower ∈ writtenTwice, ∀ rest,
      lower.1.toList ≠ upper.1.toList ++ '/' :: rest := by
    intro upper upperMem lower lowerMem rest
    rw [oneName upper upperMem, oneName lower lowerMem]
    simp
  have same := always writtenTwice filesWrittenTwice [['w']] (slashed 4094) (by decide) noneBelow
    (leadsTo_slashed (by decide)) storedIn_filesWrittenTwice "a/b"
  have inMemory : (Memory.ofInsertions writtenTwice).read "a/b" = .ok ⟨#[2]⟩ := rfl
  have tooLong : FileSystem.longestPath <
      Text.byteLength ((slashed 4094).pathOf "a/b").text := by
    have parts := Path.byteLength_le_below (.ofString (slashed 4094).root) "a/b".toList
    rw [byteLength_slashed] at parts
    exact Nat.lt_of_lt_of_le (by decide) parts
  rcases FileSystem.locate_of_refused filesWrittenTwice (.inr tooLong) with
    ⟨fault, _, refused⟩
  have inDirectory : (slashed 4094).readIn filesWrittenTwice "a/b" =
      .error (.ofFault "a/b" fault) :=
    Directory.readBy_of_error (by decide) (FileSystem.read_of_refused refused)
  rcases same.read_eq_or_error with equal | ⟨⟨_, memoryFails⟩, _⟩
  · rw [inMemory, inDirectory] at equal
    cases equal
  · rw [inMemory] at memoryFails
    cases memoryFails

end Source
end PermissionTypes
