import MapFilter.Diagnostic
import MapFilter.Text

/-!
# File trees

The files and directories of a system, seen from a working directory, and the way that a path leads
through them. A path may climb with `..`, and stays at the top once it is there.

* `FileTree`, `FileTree.ofEntries`;
* `FileTree.walk`, `FileTree.start`: where a path begins and where it leads;
* `FileTree.read`, `FileTree.isFile`, `FileTree.write`;
* `FileTree.changes`: the files that one tree has and another has not.
-/

namespace MapFilter

/-- The names that lead to a file or directory, from the top. -/
abbrev Route := List String

/-- What stands at the end of a route. -/
inductive FileNode where
  | file (content : List UInt8)
  | directory

/-- Everything below the top directory. -/
structure FileTree where
  /-- The files, each route at most once. -/
  files : List (Route × List UInt8) := []
  /-- Directories that may hold no file. -/
  directories : List Route := []
  /-- The working directory, where a path begins that is not absolute. -/
  directory : Route := []

namespace FileTree

/-- The parts of a path between its slashes. -/
def parts (path : String) : List String := (path.toList.splitOn '/').map String.ofList

/-- The route that a path stands for when it does not climb. -/
def route (path : String) : Route := (parts path).filter fun p => p != "" && p != "."

/-- A working directory at the top. No path finds it by its name, which holds a slash. -/
def workplace : Route := ["/"]

/-- The tree that has the given files and directories in the working directory and nothing else. -/
def ofEntries (files : List (String × List UInt8)) (directories : List String) : FileTree where
  files := files.map fun f => (workplace ++ route f.1, f.2)
  directories := workplace :: directories.map fun d => workplace ++ route d
  directory := workplace

/-- What stands at the end of a route. Every beginning of a route is a directory. -/
def node? (t : FileTree) (r : Route) : Option FileNode :=
  match t.files.lookup r with
  | some content => some (.file content)
  | none =>
    if r = [] ∨ t.directories.any r.isPrefixOf ∨ t.files.any (r.isPrefixOf ·.1) then
      some .directory
    else none

/-- The longest name, in bytes, that a file may have. -/
def maxName : Nat := 255

/-- Goes on from the end of a route by the parts of a path, which must all lead to directories but
for the last. -/
def walk (t : FileTree) : Route → List String → Except FileFault Route
  | r, [] => .ok r
  | r, part :: rest =>
    match t.node? r with
    | none => .error .notFound
    | some (.file _) => .error .notADirectory
    | some .directory =>
      if part = "" ∨ part = "." then walk t r rest
      else if part = ".." then walk t r.dropLast rest
      else if maxName < part.utf8ByteSize then .error .nameTooLong
      else walk t (r ++ [part]) rest

/-- Where a path begins: at the top if it is absolute. -/
def start (t : FileTree) (path : String) : Route :=
  if path.toList.head? = some '/' then [] else t.directory

/-- A fault that a path has before anything is looked up. -/
def pathFault? (path : String) : Option FileFault :=
  if '\x00' ∈ path.toList then some .nulInName
  else if path = "" then some .notFound
  else none

/-- The content of the file at a path. -/
def read (t : FileTree) (path : String) : Except FileFault (List UInt8) := do
  if let some e := pathFault? path then throw e
  match t.node? (← t.walk (t.start path) (parts path)) with
  | none => throw .notFound
  | some .directory => throw .isADirectory
  | some (.file content) => return content

/-- Whether there is a file at a path. -/
def isFile (t : FileTree) (path : String) : Bool := (t.read path).toOption.isSome

/-- The tree with a file at a route in the place of any that was there. -/
def put (t : FileTree) (r : Route) (content : List UInt8) : FileTree :=
  { t with files := (r, content) :: t.files.filter (·.1 != r) }

/-- The tree after writing a file, which may be new, into a directory that is there. -/
def write (t : FileTree) (path : String) (content : List UInt8) : Except FileFault FileTree := do
  if let some e := pathFault? path then throw e
  -- slashes after the last name ask for a directory
  let names := ((parts path).reverse.dropWhile (· == "")).reverse
  let r ← t.walk (t.start path) names.dropLast
  match t.node? r, names.getLast? with
  | none, _ => throw .notFound
  | some (.file _), _ => throw .notADirectory
  | some .directory, none => throw .isADirectory
  | some .directory, some name =>
    if name = "." ∨ name = ".." ∨ (parts path).getLast? = some "" then throw .isADirectory
    if maxName < name.utf8ByteSize then throw .nameTooLong
    match t.node? (r ++ [name]) with
    | some .directory => throw .isADirectory
    | _ => return t.put (r ++ [name]) content

/-- The files in the working directory that another tree has not, or not with that content, by their
routes from there. -/
def changes (t old : FileTree) : List (Route × List UInt8) :=
  let new := t.files.filter fun f =>
    t.directory.isPrefixOf f.1 && old.files.lookup f.1 != some f.2
  new.map fun f => (f.1.drop t.directory.length, f.2)

end FileTree

end MapFilter
