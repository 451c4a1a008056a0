/-!
# Path texts

What a path says by itself, without a look at any file: its components, the name at its end, and
that name's stem and extension. Repeated slashes, a slash at the end and `.` components after the
first say nothing.
-/

namespace Halfword.Command

/-- A component of a path. -/
inductive Component where
  | root | here | up
  | name (text : String)
  deriving DecidableEq

namespace Path

/-- The component of a part between slashes, if it says something. -/
def component? (part : List Char) : Option Component :=
  if part = [] ∨ part = ['.'] then none
  else if part = ['.', '.'] then some .up
  else some (.name (String.ofList part))

/-- The components of a path. -/
def components (path : String) : List Component :=
  match path.toList.splitOn '/' with
  | [] => []
  | first :: rest =>
    let start :=
      if first = [] then if rest = [] then [] else [.root]
      else if first = ['.'] then [.here]
      else (component? first).toList
    start ++ rest.filterMap component?

/-- The name at the end of a path. -/
def fileName? (path : String) : Option String :=
  match (components path).getLast? with
  | some (.name text) => some text
  | _ => none

/-- Whether a path has no component before its last one, or only `.` there. -/
def inWorkingDirectory (path : String) : Bool :=
  match (components path).getLast? with
  | none | some .root => true
  | some _ =>
    let parent := (components path).dropLast
    decide (parent = [] ∨ parent = [.here])

/-- The stem and the extension of a file name. The last dot divides them, unless it is the first
character or the name is `..`. -/
def splitExtension (name : List Char) : List Char × Option (List Char) :=
  match name.reverse.span (· != '.') with
  | (_, []) => (name, none)
  | (after, _ :: before) =>
    if before = [] ∨ name = ['.', '.'] then (name, none) else (before.reverse, some after.reverse)

/-- The stem of a file name. -/
def stem (name : String) : String := String.ofList (splitExtension name.toList).1

/-- Whether a file name has an extension, be it empty. -/
def hasExtension (name : String) : Bool := (splitExtension name.toList).2.isSome

/-- A name with its extension, if any, replaced; `.` and `..` are no file names and stay. -/
def withExtension (name extension : String) : String :=
  if name = "." ∨ name = ".." then name else stem name ++ "." ++ extension

end Path

end Halfword.Command
