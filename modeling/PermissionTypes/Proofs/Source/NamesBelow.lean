import PermissionTypes.Proofs.Files.PathsBelow
import PermissionTypes.Proofs.Files.Writing
import PermissionTypes.Proofs.Source.SourcesAgree

/-! Names stay below the directory that they are used in. The components of the directory are
continued by names only, so each step of the walk along them leads further down. Names that could
lead elsewhere are refused, for the first reason that there is. -/

namespace PermissionTypes

open Schema (bind_eq_ok_iff forM_eq_error_iff pure_eq_ok_iff throw_bind_eq_error_iff)
open Text (split)

/-! ## Components -/

namespace Path

def IsName (element : List Char) : Prop :=
  element ≠ [] ∧ element ≠ here ∧ element ≠ up

/-- What a path starts with before its names: the slash of an absolute path, or the dot of a
relative one. -/
def lead (path : Path) : List (List Char) :=
  if path.isAbsolute then [['/']]
  else if path.elements.head? = some here then [here]
  else []

/-- The components of a path in its normal form. Slashes that are repeated or stand at the end
leave no trace in it, nor do dots behind its start. -/
def components (path : Path) : List (List Char) :=
  path.lead ++ path.elements.filter (· ≠ here)

theorem lead_below {directory : Path} {name : List Char}
    (valid : Source.ResourceName.check name = .ok ()) :
    (directory.below name).lead = directory.lead := by
  have isNames := (Source.ResourceName.check_accepts_iff.mp valid).2
  have dot : (directory.below name).elements.head? = some here ↔
      directory.elements.head? = some here := by
    rw [elements_below, elements_of_check valid]
    cases directory.elements with
    | cons first elements => rfl
    | nil =>
        apply iff_of_false
        · intro starts
          exact (isNames here (List.mem_of_mem_head? starts)).2.1 rfl
        · simp
  simp only [lead, isAbsolute_below_of_check valid, dot]

theorem components_below {directory : Path} {name : List Char}
    (valid : Source.ResourceName.check name = .ok ()) :
    (directory.below name).components = directory.components ++ split '/' name := by
  have noDot : (split '/' name).filter (· ≠ here) = split '/' name := by
    apply List.filter_eq_self.mpr
    intro element member
    exact decide_eq_true ((Source.ResourceName.check_accepts_iff.mp valid).2 element member).2.1
  rw [components, components, lead_below valid, elements_below, elements_of_check valid,
    List.filter_append, noDot, List.append_assoc]

example : (below ⟨"./s/./t//".toList⟩ "a/b".toList).components =
    ["." , "s", "t", "a", "b"].map String.toList := by decide

end Path

/-! ## Walks -/

def Place.IsBelow (place upper : Place) : Prop :=
  upper <+: place ∧ upper ≠ place

namespace FileSystem

def Visits (files : FileSystem) (path : Path) (count : Nat) (place : Place) : Prop :=
  ∃ start, files.start path = .ok start ∧
    files.follow start (path.elements.take count) = .ok place

theorem visits_of_locate {files : FileSystem} {path : Path} {place : Place}
    (located : files.locate path = .ok place) : files.Visits path path.elements.length place := by
  rcases locate_eq_ok_iff.mp located with ⟨start, starts, follow, _⟩
  exact ⟨start, starts, by rwa [List.take_length]⟩

theorem follow_names {files : FileSystem} {names : List (List Char)}
    (isNames : ∀ name ∈ names, Path.IsName name) {start place : Place}
    (follow : files.follow start names = .ok place) : place = start ++ names := by
  induction names generalizing start with
  | nil =>
      rw [List.append_nil]
      exact (pure_eq_ok_iff.mp follow).symm
  | cons name names induction =>
      rcases List.forall_mem_cons.mp isNames with ⟨⟨_, notHere, notUp⟩, isNamesBehind⟩
      rcases bind_eq_ok_iff.mp follow with ⟨next, step, more⟩
      rcases (step_eq_ok_iff.mp step).2 with ⟨here, _⟩ | ⟨up, _⟩ | ⟨_, _, _, rfl, _⟩
      · exact absurd here notHere
      · exact absurd up notUp
      · rw [induction isNamesBehind more, List.append_assoc, List.singleton_append]

theorem isDirectory_of_follow {files : FileSystem} {names : List (List Char)} (notNil : names ≠ [])
    {start place : Place} (follow : files.follow start names = .ok place) :
    files.isDirectory start = true := by
  cases names with
  | nil => exact absurd rfl notNil
  | cons name names =>
      rcases bind_eq_ok_iff.mp follow with ⟨next, step, _⟩
      exact (step_eq_ok_iff.mp step).1

end FileSystem

namespace Source

theorem leadsTo_of_follow {files : FileSystem} {directory : Directory} {name : String}
    (valid : ResourceName.check name.toList = .ok ()) {start rootPlace : Place}
    (starts : files.start (directory.pathOf name) = .ok start)
    (follow : files.follow start (Path.ofString directory.root).elements = .ok rootPlace)
    (isDirectory : files.isDirectory rootPlace = true) :
    directory.LeadsTo files rootPlace := by
  rcases FileSystem.start_eq_ok_iff.mp starts with ⟨noNul, _, fits, startPlace⟩
  rw [Directory.pathOf, Path.isAbsolute_below_of_check valid] at startPlace
  refine ⟨isDirectory, ?_⟩
  by_cases empty : directory.root = ""
  · rw [empty] at follow startPlace
    exact .inl ⟨empty, (pure_eq_ok_iff.mp follow).symm.trans startPlace⟩
  · have filled : (Path.ofString directory.root).text ≠ [] := by
      simpa [Path.ofString] using empty
    have shorter := Path.byteLength_le_below (.ofString directory.root) name.toList
    rw [Directory.pathOf, Path.mem_text_below (by decide), not_or] at noNul
    have rootStarts : files.start (.ofString directory.root) = .ok start :=
      FileSystem.start_eq_ok_iff.mpr
        ⟨noNul.1, filled, Nat.le_trans (Nat.le_of_add_right_le shorter) fits, startPlace⟩
    exact .inr (FileSystem.locate_eq_ok_iff.mpr
      ⟨start, rootStarts, follow, fun _ => isDirectory⟩)

/-- Behind the elements of the directory the walk to a name is at places strictly below it. -/
theorem below_of_visits {files : FileSystem} {directory : Directory} {name : String}
    (valid : ResourceName.check name.toList = .ok ()) {count : Nat} {place : Place}
    (visits : files.Visits (directory.pathOf name) count place)
    (behind : (Path.ofString directory.root).elements.length < count) :
    ∃ rootPlace, directory.LeadsTo files rootPlace ∧ place.IsBelow rootPlace := by
  rcases visits with ⟨start, starts, follow⟩
  let below := (split '/' name.toList).take
    (count - (Path.ofString directory.root).elements.length)
  have elements : (directory.pathOf name).elements.take count =
      (Path.ofString directory.root).elements ++ below := by
    rw [Directory.pathOf, Path.elements_below, Path.elements_of_check valid, List.take_append,
      List.take_of_length_le (Nat.le_of_lt behind)]
  have notNil : below ≠ [] := by
    have pieces := Text.split_ne_nil '/' name.toList
    simp only [below, ne_eq, List.take_eq_nil_iff, pieces, or_false]
    omega
  have isNames : ∀ element ∈ below, Path.IsName element := fun element member =>
    (ResourceName.check_accepts_iff.mp valid).2 element (List.mem_of_mem_take member)
  rw [elements, FileSystem.follow_append] at follow
  rcases bind_eq_ok_iff.mp follow with ⟨rootPlace, rootFollow, more⟩
  have isDirectory := FileSystem.isDirectory_of_follow notNil more
  refine ⟨rootPlace, leadsTo_of_follow valid starts rootFollow isDirectory, ?_⟩
  rw [FileSystem.follow_names isNames more]
  exact ⟨List.prefix_append rootPlace below, fun same => notNil (List.self_eq_append_right.mp same)⟩

theorem file_below_of_readIn {files : FileSystem} {directory : Directory} {name : String}
    {content : ByteArray} (read : directory.readIn files name = .ok content) :
    ∃ rootPlace place, directory.LeadsTo files rootPlace ∧ place.IsBelow rootPlace ∧
      files.node? place = some (.file content) := by
  rcases Directory.readBy_eq_ok_iff.mp read with ⟨valid, read⟩
  rcases FileSystem.read_eq_ok_iff.mp read with ⟨place, located, holds⟩
  have behind : (Path.ofString directory.root).elements.length <
      (directory.pathOf name).elements.length := by
    rw [Directory.pathOf, Path.elements_below, Path.elements_of_check valid, List.length_append]
    exact Nat.lt_add_of_pos_right (List.length_pos_iff.mpr (Text.split_ne_nil '/' name.toList))
  rcases below_of_visits valid (FileSystem.visits_of_locate located) behind with
    ⟨rootPlace, leads, isBelow⟩
  exact ⟨rootPlace, place, leads, isBelow, holds⟩

/-! ## Reasons -/

namespace ResourceName

/-- The first reason against a name: that it is empty, then a backslash, then a slash in front of
it, and then the first of its elements that names nothing. -/
inductive Refuses (name : List Char) : NameFault → Prop
  | empty (empty : name = []) : Refuses name .empty
  | backslash (filled : name ≠ []) (backslash : '\\' ∈ name) : Refuses name .backslash
  | absolute (filled : name ≠ []) (noBackslash : '\\' ∉ name)
      (absolute : name.head? = some '/') : Refuses name .absolute
  | emptyElement (filled : name ≠ []) (noBackslash : '\\' ∉ name)
      (relative : name.head? ≠ some '/') (front back : List (List Char))
      (cut : split '/' name = front ++ [] :: back)
      (isNames : ∀ element ∈ front, Path.IsName element) : Refuses name .emptyElement
  | dotElement (filled : name ≠ []) (noBackslash : '\\' ∉ name)
      (relative : name.head? ≠ some '/') (front back : List (List Char)) (dots : List Char)
      (cut : split '/' name = front ++ dots :: back)
      (isNames : ∀ element ∈ front, Path.IsName element)
      (leadsNowhere : dots = Path.here ∨ dots = Path.up) : Refuses name .dotElement

theorem checkElement_eq_error_iff {element : List Char} {fault : NameFault} :
    checkElement element = .error fault ↔
      element = [] ∧ fault = .emptyElement ∨
        (element = Path.here ∨ element = Path.up) ∧ fault = .dotElement := by
  unfold checkElement
  split
  · rename_i empty
    simp [empty, Path.here, Path.up, eq_comm (a := fault)]
  · rename_i filled
    split
    · rename_i dots
      simp [filled, show element = Path.here ∨ element = Path.up from dots, eq_comm (a := fault)]
    · rename_i noDots
      simp [filled, show ¬(element = Path.here ∨ element = Path.up) from noDots]

theorem check_eq_error_iff {name : List Char} {fault : NameFault} :
    check name = .error fault ↔ Refuses name fault := by
  unfold check
  simp only [throw_bind_eq_error_iff, forM_eq_error_iff, checkElement_eq_ok_iff,
    checkElement_eq_error_iff]
  constructor
  · rintro (⟨empty, rfl⟩ | ⟨filled, ⟨backslash, rfl⟩ | ⟨noBackslash, ⟨absolute, rfl⟩ |
      ⟨relative, front, element, back, cut, isNames, ⟨rfl, rfl⟩ | ⟨dots, rfl⟩⟩⟩⟩)
    · exact .empty empty
    · exact .backslash filled backslash
    · exact .absolute filled noBackslash absolute
    · exact .emptyElement filled noBackslash relative front back cut isNames
    · exact .dotElement filled noBackslash relative front back element cut isNames dots
  · intro refuses
    cases refuses with
    | empty empty => exact .inl ⟨empty, rfl⟩
    | backslash filled backslash => exact .inr ⟨filled, .inl ⟨backslash, rfl⟩⟩
    | absolute filled noBackslash absolute =>
        exact .inr ⟨filled, .inr ⟨noBackslash, .inl ⟨absolute, rfl⟩⟩⟩
    | emptyElement filled noBackslash relative front back cut isNames =>
        refine .inr ⟨filled, .inr ⟨noBackslash, .inr ⟨relative, ?_⟩⟩⟩
        exact ⟨front, [], back, cut, isNames, .inl ⟨rfl, rfl⟩⟩
    | dotElement filled noBackslash relative front back dots cut isNames leadsNowhere =>
        refine .inr ⟨filled, .inr ⟨noBackslash, .inr ⟨relative, ?_⟩⟩⟩
        exact ⟨front, dots, back, cut, isNames, .inr ⟨leadsNowhere, rfl⟩⟩

end ResourceName

/-- A name that is accepted continues the components of a directory by names, and these tell it from
all other names. The walk along them stays strictly below the directory, and so does the file that
is read. A name that is not accepted is refused for the first reason that there is. -/
theorem names_stay_below (directory : Directory) (name : String) :
    (ResourceName.check name.toList = .ok () →
        (∃ below, below ≠ [] ∧ (∀ component ∈ below, Path.IsName component) ∧
          (directory.pathOf name).components =
            (Path.ofString directory.root).components ++ below) ∧
        (∀ files count place, files.Visits (directory.pathOf name) count place →
          (Path.ofString directory.root).elements.length < count →
          ∃ rootPlace, directory.LeadsTo files rootPlace ∧ place.IsBelow rootPlace) ∧
        (∀ files content, directory.readIn files name = .ok content →
          ∃ rootPlace place, directory.LeadsTo files rootPlace ∧ place.IsBelow rootPlace ∧
            files.node? place = some (.file content)) ∧
        ∀ other, ResourceName.check other.toList = .ok () →
          (directory.pathOf other).components = (directory.pathOf name).components →
          other = name) ∧
      ∀ fault, ResourceName.check name.toList = .error fault ↔
        ResourceName.Refuses name.toList fault := by
  refine ⟨fun valid => ⟨?_, fun _ _ _ => below_of_visits valid,
      fun _ _ => file_below_of_readIn, ?_⟩,
    fun _ => ResourceName.check_eq_error_iff⟩
  · exact ⟨split '/' name.toList, Text.split_ne_nil '/' name.toList,
      (ResourceName.check_accepts_iff.mp valid).2, Path.components_below valid⟩
  · intro other otherValid same
    rw [Directory.pathOf, Directory.pathOf, Path.components_below valid,
      Path.components_below otherValid, List.append_cancel_left_eq] at same
    exact String.toList_injective (Text.split_injective same)

end Source
end PermissionTypes
