/-!
# File trees

The part of a file system that a command sees: files by their locations, and a working directory. A location is the list of names that
lead to it from the root. A directory exists if it is listed or if something lies below it.
-/

namespace ThreeAddress.Command

/-- The names that lead from the root to a file or a directory. -/
abbrev Location := List String

structure FileTree where
  files : List (Location × List UInt8)
  /-- Directories, which may be empty. -/
  directories : List Location
  /-- The working directory. -/
  current : Location
  deriving DecidableEq, Inhabited

namespace FileTree

/-- The contents of the file at a location. -/
def read? (t : FileTree) (l : Location) : Option (List UInt8) :=
  (t.files.find? (·.1 == l)).map (·.2)

def isFile (t : FileTree) (l : Location) : Bool :=
  (t.read? l).isSome

/-- The second location lies below the first. -/
def isBelow (above below : Location) : Bool :=
  above.isPrefixOf below && above != below

def isDirectory (t : FileTree) (l : Location) : Bool :=
  l.isEmpty || t.current.take l.length == l || t.directories.any (l.isPrefixOf ·) || t.files.any fun (f, _) => isBelow l f

/-- Gives the file at a location the contents, a new file if there was none. -/
def write (t : FileTree) (l : Location) (bytes : List UInt8) : FileTree :=
  { t with files := t.files.filter (·.1 != l) ++ [(l, bytes)] }

/-- Goes on from a directory by one name of a path. -/
def enter (t : FileTree) (l : Location) (name : String) : Option Location :=
  if !t.isDirectory l then none
  else if name = "" ∨ name = "." then some l
  else if name = ".." then some l.dropLast
  else some (l ++ [name])

/-- The location that a path names, whether something is there or not. Everything before its last name must be a directory. -/
def locate (t : FileTree) (path : String) : Option Location :=
  if path.isEmpty then none
  else (path.splitOn "/").foldlM t.enter (if path.startsWith "/" then [] else t.current)

/-- The name ends as those of class files do. -/
def isClassName (l : Location) : Bool :=
  (l.getLast?.map (·.endsWith ".class")).getD false

/-- The class files that a path names: itself, or all below a directory, those of one directory by name and each directory at the place
of its own name. Names are compared by code points. None if nothing is there. -/
def classFiles (t : FileTree) (path : String) : Option (List Location) := do
  let l ← t.locate path
  if t.isFile l then return [l].filter isClassName
  else if t.isDirectory l then
    return ((t.files.map (·.1)).filter fun f => isBelow l f && isClassName f).mergeSort fun a b => !(b < a)
  else none

end FileTree
end ThreeAddress.Command
