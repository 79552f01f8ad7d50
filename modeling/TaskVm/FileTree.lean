import TaskVm.Text.Split

/-!
# Paths and file trees

A path is a text with slashes between its components. Going to the directory above is done
on the text alone: the last component is cut off, whatever it is. Empty components and
single dots name nothing and are cut off with it; only a dot that a path begins with counts
as a component.

A file tree is what paths are looked up in. There `..` does mean the directory above, and
all but the last component have to be directories. Names and paths have a greatest length,
and no path has a null character in it.
-/

namespace TaskVm

namespace Path

/-- The path begins at the root. -/
def isAbsolute (path : String) : Bool := path.toList.head? == some '/'

/-- The components of a path, the empty ones included. -/
def components (path : String) : List String := Text.split path "/"

/-- A component that names nothing. -/
def namesNothing (component : String) : Bool := component == "" || component == "."

/-- The greatest number of bytes a component may have. -/
def maxComponent : Nat := 255

/-- The greatest number of bytes a path may have. -/
def maxLength : Nat := 4095

/-- A path that can be looked up: short enough, and no null character in it. -/
def isValid (path : String) : Bool :=
  path.utf8ByteSize ≤ maxLength && !path.toList.contains '\x00'

/-- The components of a path that name something. -/
def names (path : String) : List String := (components path).filter fun c => !namesNothing c

/-- Cut off what names nothing from the end of some components, listed last first. The first
component of a path stays, unless it is empty. -/
def trimEnd : List String → List String
  | [] => []
  | [c] => if c == "" then [] else [c]
  | c :: before => if namesNothing c then trimEnd before else c :: before

/-- The directory above, on the text alone. -/
def parent? (path : String) : Option String :=
  match trimEnd (components path).reverse with
  | [] => none
  | _ :: before =>
    match trimEnd before with
    | [] => some (if isAbsolute path then "/" else "")
    | rest => some (Text.joinWith "/" rest.reverse)

/-- A name in a directory. -/
def join (directory name : String) : String :=
  if directory.isEmpty || directory.toList.getLast? == some '/' then directory ++ name
  else directory ++ "/" ++ name

end Path

/-- Files and directories by their names from the root down. A directory is there if
anything is in it. -/
structure FileTree where
  files : List (List String × List UInt8) := []
  directories : List (List String) := []
  /-- The directory that relative paths begin at. -/
  current : List String := []
deriving DecidableEq, Inhabited

/-- What a path leads to. -/
inductive Place where
  | file (content : List UInt8)
  | directory
  | nothing
  /-- Something on the way is not a directory, or there can be no such path. -/
  | blocked
deriving DecidableEq, Inhabited

namespace FileTree

/-- The tree with these files, and with these paths as directories. -/
def ofPaths (files : List (String × List UInt8)) (directories : List String) : FileTree where
  files := files.map fun f => (Path.names f.1, f.2)
  directories := directories.map Path.names

/-- What has some names. -/
def placeOf (t : FileTree) (names : List String) : Place :=
  match t.files.find? fun f => f.1 == names with
  | some f => .file f.2
  | none =>
    let all := t.files.map (·.1) ++ t.directories
    if names.isEmpty || all.any fun n => names.isPrefixOf n then .directory else .nothing

/-- Follow the components of a path from a place. -/
def follow (t : FileTree) : (names : List String) → List String → Place
  | names, [] => t.placeOf names
  | names, c :: rest =>
    match t.placeOf names with
    | .directory =>
      if Path.namesNothing c then t.follow names rest
      else if c = ".." then t.follow names.dropLast rest
      else if c.utf8ByteSize ≤ Path.maxComponent then t.follow (names ++ [c]) rest
      else .blocked
    | .nothing => .nothing
    | _ => .blocked

/-- Look up a path. The empty path leads nowhere. -/
def lookup (t : FileTree) (path : String) : Place :=
  if path.isEmpty then .nothing
  else if !Path.isValid path then .blocked
  else t.follow (if Path.isAbsolute path then [] else t.current) (Path.components path)

/-- A path leads to something. -/
def exists? (t : FileTree) (path : String) : Bool :=
  match t.lookup path with
  | .file _ | .directory => true
  | _ => false

end FileTree

end TaskVm
