/-!
# Volumes

A file tree of directories and regular files with a working directory in it, and the two ways in
which a program touches it: a file is read whole, or created with given content. Paths are walked
one component at a time, so that `a/..` needs `a` to be a directory, and `..` at the root stays at
the root. A name has a greatest length, and so has a path as a whole; both are counted in bytes.

A file at the end of a path may still be refused, for a reason of the system's own such as its
permissions. A creation that is refused has no effect, and one that is not is completed; a file that
can be written can be read.
-/

namespace Halfword.Command

/-- Why a file cannot be used: an error of the system with its number, or content that is not
text. -/
inductive FileError where
  | system (number : Nat) (text : String)
  | notText
  deriving DecidableEq

namespace FileError

/-- No file has the name. -/
def notFound : FileError := .system 2 "No such file or directory"

/-- A regular file stands where a directory is needed. -/
def notDirectory : FileError := .system 20 "Not a directory"

/-- A directory stands where a regular file is needed. -/
def isDirectory : FileError := .system 21 "Is a directory"

/-- A name, or a path as a whole, has too many bytes. -/
def nameTooLong : FileError := .system 36 "File name too long"

/-- The text of an error. -/
def message : FileError → String
  | system number text => s!"{text} (os error {number})"
  | notText => "stream did not contain valid UTF-8"

end FileError

/-- What a name in a directory stands for. -/
inductive Node where
  | directory
  | file (content : ByteArray)

instance : DecidableEq Node
  | .directory, .directory => isTrue rfl
  | .directory, .file _ => isFalse nofun
  | .file _, .directory => isFalse nofun
  | .file a, .file b =>
    match ByteArray.decEq a b with
    | isTrue same => isTrue (congrArg Node.file same)
    | isFalse differ => isFalse fun same => differ (Node.file.inj same)

/-- A place in the tree: the names from it up to the root. -/
abbrev Location := List String

/-- What the system lets a program do with a regular file, and why no more. -/
inductive Access where
  | whole
  | readOnly (refusal : FileError)
  | none (refusal : FileError)

namespace Access

/-- Whether the file may be read. -/
def toRead : Access → Except FileError Unit
  | whole | readOnly _ => .ok ()
  | none refusal => .error refusal

/-- Whether the file may be created or replaced. -/
def toWrite : Access → Except FileError Unit
  | whole => .ok ()
  | readOnly refusal | none refusal => .error refusal

theorem toRead_of_toWrite {access : Access} (writable : access.toWrite = .ok ()) :
    access.toRead = .ok () := by
  cases access with
  | whole => rfl
  | readOnly refusal | none refusal => cases writable

end Access

/-- A file tree and the working directory in it. -/
structure Volume where
  nodes : List (Location × Node)
  /-- No location has two nodes. -/
  distinct : (nodes.map Prod.fst).Nodup
  workingDirectory : Location
  /-- What may be done with the file that is or would be at a location. -/
  access : Location → Access

namespace Volume

/-- A tree that holds an empty working directory only, where everything may be done. -/
def empty : Volume := ⟨[(["work"], .directory)], by decide, ["work"], fun _ => .whole⟩

/-- The node at a location. -/
def node? (v : Volume) (location : Location) : Option Node :=
  if location = [] then some .directory else v.nodes.lookup location

theorem distinct_put (v : Volume) (location : Location) (node : Node) :
    (((location, node) :: v.nodes.filter fun p => p.1 != location).map Prod.fst).Nodup := by
  rw [List.map_cons, List.nodup_cons]
  constructor
  · simp
  · exact v.distinct.sublist (List.filter_sublist.map Prod.fst)

/-- The tree with a node put at a location. -/
def put (v : Volume) (location : Location) (node : Node) : Volume :=
  { v with
    nodes := (location, node) :: v.nodes.filter fun p => p.1 != location
    distinct := v.distinct_put location node }

/-- The parts of a path between slashes, empty ones left out. -/
def parts (path : String) : List String :=
  ((path.toList.splitOn '/').filter fun part => !part.isEmpty).map String.ofList

/-- Whether a path ends in a slash. -/
def endsInSlash (path : String) : Bool := path.toList.getLast? == some '/'

/-- The most bytes that a name in a directory can have. -/
def nameMax : Nat := 255

/-- The most bytes that a path can have. -/
def pathMax : Nat := 4095

/-- Where a path starts. -/
def origin (v : Volume) (path : String) : Location :=
  if path.toList.head? = some '/' then [] else v.workingDirectory

/-- What a name in a directory stands for, if it is taken. -/
def find (v : Volume) (location : Location) (name : String) : Except FileError (Option Node) :=
  if nameMax < name.utf8ByteSize then .error .nameTooLong else .ok (v.node? (name :: location))

/-- The directory that a part of a path leads to. -/
def enter (v : Volume) (location : Location) (part : String) : Except FileError Location := do
  if part = "." then return location
  else if part = ".." then return location.tail
  else
    match ← v.find location part with
    | none => .error .notFound
    | some .directory => return part :: location
    | some (.file _) => .error .notDirectory

/-- The directory that parts of a path lead to. -/
def enterAll (v : Volume) (location : Location) (parts : List String) : Except FileError Location :=
  parts.foldlM v.enter location

/-- Where a path leads: into a directory, or to a name in a directory that may be free. -/
inductive Place where
  | directory
  | entry (location : Location) (name : String)

/-- Where a path leads if its last part is a name that need not exist. -/
def place (v : Volume) (path : String) : Except FileError Place :=
  if path = "" then .error .notFound
  else if pathMax < path.utf8ByteSize then .error .nameTooLong
  else
    match (parts path).getLast? with
    | none => .ok .directory
    | some last => do
      let location ← v.enterAll (v.origin path) (parts path).dropLast
      if last = "." ∨ last = ".." then .ok .directory else .ok (.entry location last)

/-- The content of the file that a path names. -/
def read (v : Volume) (path : String) : Except FileError ByteArray := do
  match ← v.place path with
  | .directory => .error .isDirectory
  | .entry location name =>
    match ← v.find location name with
    | none => .error .notFound
    | some .directory => .error .isDirectory
    | some (.file content) =>
      if endsInSlash path then .error .notDirectory
      else
        (v.access (name :: location)).toRead
        return content

/-- The text of the file that a path names. -/
def readText (v : Volume) (path : String) : Except FileError String := do
  match String.fromUTF8? (← v.read path) with
  | none => .error .notText
  | some text => .ok text

/-- The directory entry at which a path can have a regular file created. -/
def destination (v : Volume) (path : String) : Except FileError Location := do
  match ← v.place path with
  | .directory => .error .isDirectory
  | .entry location name =>
    if endsInSlash path then .error .isDirectory
    else
      match ← v.find location name with
      | some .directory => .error .isDirectory
      | none | some (.file _) =>
        (v.access (name :: location)).toWrite
        return name :: location

/-- The tree with the file that a path names created, or replaced if there is one. -/
def create (v : Volume) (path : String) (content : ByteArray) : Except FileError Volume :=
  (v.destination path).map fun location => v.put location (.file content)

/-- The tree with the directories of a path made where there are none. -/
def makeDirectories (v : Volume) (path : String) : Volume :=
  let step := fun (state : Volume × Location) (part : String) =>
    if part = "." then state
    else if part = ".." then (state.1, state.2.tail)
    else
      let location := part :: state.2
      match state.1.node? location with
      | none => (state.1.put location .directory, location)
      | some _ => (state.1, location)
  ((parts path).foldl step (v, v.origin path)).1

/-- The path from the working directory to a location below it. -/
def relativePath? (v : Volume) (location : Location) : Option String :=
  let depth := location.length - v.workingDirectory.length
  if location.drop depth = v.workingDirectory ∧ depth ≠ 0 then
    some ("/".intercalate (location.take depth).reverse)
  else none

/-- The path and the content of a node that is a file below the working directory and is not the
same in the tree `before`. -/
def change? (before v : Volume) : Location × Node → Option (String × ByteArray)
  | (_, .directory) => none
  | (location, .file content) =>
    if before.node? location = some (.file content) then none
    else (v.relativePath? location).map fun path => (path, content)

/-- The files below the working directory that are new or have other content than before, by
path. -/
def changes (before after : Volume) : List (String × ByteArray) :=
  (after.nodes.filterMap (before.change? after)).mergeSort fun a b => decide (a.1 ≤ b.1)

end Volume

end Halfword.Command
