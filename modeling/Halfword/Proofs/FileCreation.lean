import Halfword.Command.Volume
import Halfword.Proofs.Outcomes

/-!
# What creating a file changes

A path leads to a directory entry by way of directories, and creating a file puts content at that
entry and nowhere else. Whether it can be created is a matter of the path and the tree, not of the
content (`Volume.create_error`). No directory is lost by it, so the same path leads to the same entry
afterwards (`Volume.place_of_directories`). Reading the path gives the content back
(`Volume.wrote_of_create`), and so does every path to the same entry, while the other files stay as
they were (`Volume.read_of_create`). As seen from the working directory, at most the one file is
changed (`Volume.changes_put`).
-/

namespace Halfword.Command

namespace Volume

/-- What it means that `content` was written to the file that `path` names, and nothing else. -/
structure Wrote (v : Volume) (path : String) (content : ByteArray) (v' : Volume) : Prop where
  /-- The path leads to one entry, which has the content; every other entry is as before. -/
  entry : ∃ location name, v.place path = .ok (.entry location name) ∧
    v'.node? (name :: location) = some (.file content) ∧
    ∀ other, other ≠ name :: location → v'.node? other = v.node? other
  workingDirectory : v'.workingDirectory = v.workingDirectory
  /-- The path still leads there. -/
  read : v'.read path = .ok content

theorem lookup_filter_of_ne {location other : Location} (differ : other ≠ location)
    (nodes : List (Location × Node)) :
    (nodes.filter fun p => p.1 != location).lookup other = nodes.lookup other := by
  induction nodes with
  | nil => rfl
  | cons p nodes ih =>
    obtain ⟨here, node⟩ := p
    by_cases removed : here = location
    · have elsewhere : (other == here) = false := by simpa [removed] using differ
      rw [List.filter_cons_of_neg (by simp [removed]), ih, List.lookup_cons, elsewhere]
    · rw [List.filter_cons_of_pos (by simpa using removed), List.lookup_cons, List.lookup_cons, ih]

/-- A node below the root is found where it was put, and every other one where it was. -/
theorem node?_put (v : Volume) {location : Location} (below : location ≠ []) (node : Node)
    (other : Location) :
    (v.put location node).node? other = if other = location then some node else v.node? other := by
  by_cases same : other = location
  · subst same
    simp [node?, put, below]
  · have differ : (other == location) = false := by simpa using same
    simp only [node?, put, List.lookup_cons, differ, lookup_filter_of_ne same, same, if_false]

section Directories

variable {v v' : Volume}
  (directories : ∀ location, v.node? location = some .directory →
    v'.node? location = some .directory)
include directories

/-- A directory that can be entered can be entered in every tree that has the same directories. -/
theorem enter_of_directories {location location' : Location} {part : String}
    (entered : v.enter location part = .ok location') :
    v'.enter location part = .ok location' := by
  unfold enter at entered ⊢
  split at entered
  case isTrue here => rwa [if_pos here]
  case isFalse notHere =>
    rw [if_neg notHere]
    split at entered
    case isTrue up => rwa [if_pos up]
    case isFalse notUp =>
      rw [if_neg notUp]
      obtain ⟨found, looked, entered⟩ := bind_eq_ok_iff.1 entered
      apply bind_eq_ok_iff.2
      unfold find at looked ⊢
      split at looked
      case isTrue => cases looked
      case isFalse short =>
        obtain rfl := Except.ok.inj looked
        refine ⟨v'.node? (part :: location), if_neg short, ?_⟩
        split at entered
        case h_1 | h_3 => cases entered
        case h_2 present =>
          rw [directories _ present]
          exact entered

theorem enterAll_of_directories {location location' : Location} {parts : List String}
    (entered : v.enterAll location parts = .ok location') :
    v'.enterAll location parts = .ok location' := by
  induction parts generalizing location with
  | nil => exact entered
  | cons part parts ih =>
    simp only [enterAll, List.foldlM_cons] at entered ⊢
    obtain ⟨next, first, rest⟩ := bind_eq_ok_iff.1 entered
    exact bind_eq_ok_iff.2 ⟨next, enter_of_directories directories first, ih rest⟩

/-- A path leads to the same place in every tree that has the same directories. -/
theorem place_of_directories (working : v'.workingDirectory = v.workingDirectory) {path : String}
    {place : Place} (placed : v.place path = .ok place) : v'.place path = .ok place := by
  have origin : v'.origin path = v.origin path := by
    unfold Volume.origin
    rw [working]
  unfold Volume.place at placed ⊢
  split at placed
  case isTrue => cases placed
  case isFalse filled =>
    rw [if_neg filled]
    split at placed
    case isTrue => cases placed
    case isFalse short =>
      rw [if_neg short]
      split at placed
      case h_1 => exact placed
      case h_2 last _ =>
        obtain ⟨location, entered, placed⟩ := bind_eq_ok_iff.1 placed
        apply bind_eq_ok_iff.2
        refine ⟨location, ?_, placed⟩
        rw [origin]
        exact enterAll_of_directories directories entered

end Directories

theorem find_eq_ok_iff {v : Volume} {location : Location} {name : String} {found : Option Node} :
    v.find location name = .ok found ↔
      name.utf8ByteSize ≤ nameMax ∧ v.node? (name :: location) = found := by
  unfold find
  split
  case isTrue long =>
    refine iff_of_false nofun ?_
    rintro ⟨short, -⟩
    omega
  case isFalse short => simp [Nat.not_lt.1 short]

/-- A path can be read just if it leads to a regular file that may be read and does not end in a
slash. -/
theorem read_eq_ok_iff {v : Volume} {path : String} {content : ByteArray} :
    v.read path = .ok content ↔ ∃ location name, v.place path = .ok (.entry location name) ∧
      v.find location name = .ok (some (.file content)) ∧ endsInSlash path = false ∧
      (v.access (name :: location)).toRead = .ok () := by
  constructor
  · intro read
    obtain ⟨place, placed, read⟩ := bind_eq_ok_iff.1 read
    cases place with
    | directory => cases read
    | entry location name =>
      obtain ⟨found, looked, read⟩ := bind_eq_ok_iff.1 read
      refine ⟨location, name, placed, ?_⟩
      split at read
      case h_1 | h_2 => cases read
      case h_3 =>
        split at read
        case isTrue => cases read
        case isFalse unslashed =>
          obtain ⟨⟨⟩, readable, read⟩ := bind_eq_ok_iff.1 read
          cases read
          exact ⟨looked, eq_false_of_ne_true unslashed, readable⟩
  · rintro ⟨location, name, placed, looked, unslashed, readable⟩
    apply bind_eq_ok_iff.2
    refine ⟨_, placed, bind_eq_ok_iff.2 ⟨_, looked, ?_⟩⟩
    simp only [unslashed, Bool.false_eq_true, if_false]
    exact bind_eq_ok_iff.2 ⟨(), readable, rfl⟩

/-- A file that cannot be created with some content cannot be created with any. -/
theorem create_error {v : Volume} {path : String} {content : ByteArray} {cause : FileError}
    (refused : v.create path content = .error cause) (other : ByteArray) :
    v.create path other = .error cause := by
  rw [create, map_eq_error_iff] at refused ⊢
  exact refused

theorem destination_eq_ok {v : Volume} {path : String} {destination : Location}
    (leads : v.destination path = .ok destination) :
    ∃ location name found, destination = name :: location ∧
      v.place path = .ok (.entry location name) ∧ endsInSlash path = false ∧
      v.find location name = .ok found ∧ found ≠ some .directory ∧
      (v.access (name :: location)).toWrite = .ok () := by
  obtain ⟨place, placed, leads⟩ := bind_eq_ok_iff.1 leads
  cases place with
  | directory => cases leads
  | entry location name =>
    simp only at leads
    split at leads
    case isTrue => cases leads
    case isFalse unslashed =>
      obtain ⟨found, looked, leads⟩ := bind_eq_ok_iff.1 leads
      have free : found ≠ some .directory := by
        rintro rfl
        cases leads
      have opened : ((v.access (name :: location)).toWrite >>= fun _ =>
          Except.ok (name :: location)) = .ok destination := by
        split at leads
        case h_1 => exact absurd rfl free
        case h_2 | h_3 => exact leads
      obtain ⟨⟨⟩, writable, same⟩ := bind_eq_ok_iff.1 opened
      exact ⟨location, name, found, (Except.ok.inj same).symm, placed,
        eq_false_of_ne_true unslashed, looked, free, writable⟩

/-- Creating a file puts it where no directory is and where it may be written. -/
theorem create_eq_ok {v v' : Volume} {path : String} {content : ByteArray}
    (created : v.create path content = .ok v') :
    ∃ location name, v.place path = .ok (.entry location name) ∧ endsInSlash path = false ∧
      name.utf8ByteSize ≤ nameMax ∧ v.node? (name :: location) ≠ some .directory ∧
      (v.access (name :: location)).toWrite = .ok () ∧
      v' = v.put (name :: location) (.file content) := by
  rw [create, map_eq_ok_iff] at created
  obtain ⟨destination, leads, rfl⟩ := created
  obtain ⟨location, name, found, rfl, placed, unslashed, looked, free, writable⟩ :=
    destination_eq_ok leads
  obtain ⟨short, rfl⟩ := find_eq_ok_iff.1 looked
  exact ⟨location, name, placed, unslashed, short, free, writable, rfl⟩

theorem directories_of_put {v : Volume} {location : Location} {name : String}
    (free : v.node? (name :: location) ≠ some .directory) (node : Node) (other : Location)
    (directory : v.node? other = some .directory) :
    (v.put (name :: location) node).node? other = some .directory := by
  have differ : other ≠ name :: location := by
    rintro rfl
    exact free directory
  rw [node?_put v (List.cons_ne_nil name location), if_neg differ, directory]

/-- A file that could be read before a creation has the new content if it is the file created, and
its own otherwise. -/
theorem read_of_create {v v' : Volume} {path other name name' : String} {content old : ByteArray}
    {location location' : Location} (created : v.create path content = .ok v')
    (placed : v.place path = .ok (.entry location name)) (read : v.read other = .ok old)
    (placed' : v.place other = .ok (.entry location' name')) :
    v'.read other = .ok (if name' :: location' = name :: location then content else old) := by
  obtain ⟨location, name, leads, -, -, free, -, rfl⟩ := create_eq_ok created
  cases placed.symm.trans leads
  obtain ⟨location', name', leads', looked, unslashed, readable⟩ := read_eq_ok_iff.1 read
  cases placed'.symm.trans leads'
  obtain ⟨short, present⟩ := find_eq_ok_iff.1 looked
  apply read_eq_ok_iff.2
  refine ⟨location', name', place_of_directories (directories_of_put free _) rfl placed', ?_,
    unslashed, readable⟩
  rw [find_eq_ok_iff, node?_put v (List.cons_ne_nil name location)]
  refine ⟨short, ?_⟩
  split
  · rfl
  · exact present

/-- Creating a file writes it and nothing else. -/
theorem wrote_of_create {v v' : Volume} {path : String} {content : ByteArray}
    (created : v.create path content = .ok v') : v.Wrote path content v' := by
  obtain ⟨location, name, placed, unslashed, short, free, writable, rfl⟩ := create_eq_ok created
  have nodes := node?_put v (List.cons_ne_nil name location) (.file content)
  refine ⟨⟨location, name, placed, ?_, ?_⟩, rfl, ?_⟩
  · rw [nodes, if_pos rfl]
  · intro other differ
    rw [nodes, if_neg differ]
  · apply read_eq_ok_iff.2
    refine ⟨location, name, place_of_directories (directories_of_put free _) rfl placed, ?_,
      unslashed, Access.toRead_of_toWrite writable⟩
    rw [find_eq_ok_iff, nodes, if_pos rfl]
    exact ⟨short, rfl⟩

/-- The node of a location below the root is the one that is listed for it. -/
theorem node?_of_mem {v : Volume} {location : Location} {node : Node} (below : location ≠ [])
    (member : (location, node) ∈ v.nodes) : v.node? location = some node := by
  obtain ⟨before, after, split⟩ := List.append_of_mem member
  have distinct := v.distinct
  rw [split, List.map_append, List.nodup_append] at distinct
  obtain ⟨-, -, apart⟩ := distinct
  rw [node?, if_neg below, List.lookup_eq_some_iff]
  refine ⟨before, after, split, ?_⟩
  intro other earlier
  have differ := apart other.1 (List.mem_map_of_mem earlier) location (by simp)
  simpa using differ.symm

/-- A node that a tree has is not changed from that tree. -/
theorem change?_of_mem {v : Volume} (v' : Volume) {entry : Location × Node}
    (member : entry ∈ v.nodes) : v.change? v' entry = none := by
  obtain ⟨location, node⟩ := entry
  cases node with
  | directory => rfl
  | file content =>
    by_cases root : location = []
    · have nowhere : v'.relativePath? [] = none := by simp [relativePath?]
      simp [change?, root, nowhere]
    · rw [change?, if_pos (node?_of_mem root member)]

theorem changes_self (v : Volume) : v.changes v = [] := by
  have none : v.nodes.filterMap (v.change? v) = [] := by
    rw [List.filterMap_eq_nil_iff]
    intro entry member
    exact change?_of_mem v member
  rw [changes, none, List.mergeSort_nil]

/-- Putting a file changes that file at most: not if it was the same before, and not below the
working directory if it is elsewhere. -/
theorem changes_put (v : Volume) (location : Location) (content : ByteArray) :
    v.changes (v.put location (.file content)) =
      (v.change? v (location, .file content)).toList := by
  have others : (v.nodes.filter fun p => p.1 != location).filterMap
      (v.change? (v.put location (.file content))) = [] := by
    rw [List.filterMap_eq_nil_iff]
    intro entry member
    exact change?_of_mem _ (List.mem_filter.1 member).1
  have here : v.change? (v.put location (.file content)) (location, .file content) =
      v.change? v (location, .file content) := rfl
  have nodes : (v.put location (.file content)).nodes =
      (location, .file content) :: v.nodes.filter fun p => p.1 != location := rfl
  rw [changes, nodes, List.filterMap_cons, others, here]
  cases v.change? v (location, .file content) with
  | none => exact List.mergeSort_nil
  | some changed => exact List.mergeSort_singleton changed

end Volume

end Halfword.Command
