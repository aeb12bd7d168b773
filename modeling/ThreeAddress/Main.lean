import ThreeAddress.Command.Run

/-!
# The command line

Loads the part of the file system that a command line names, runs the command on it, and writes what the command wrote. The loading walks
directories of any depth; everything that is decided is decided by `Command.run`.
-/

namespace ThreeAddress.Command

/-- The path of a location in the file system. -/
def systemPath (l : Location) :=
  (return (← IO.currentDir) / ("/" ++ "/".intercalate l) : IO _)

/-- Adds to a tree what lies at a location. Of a file that is not a class file only the presence matters. -/
partial def load (l : Location) (t : FileTree) : IO FileTree := do
  let path ← systemPath l
  if ← path.isDir then
    let mut t := { t with directories := l :: t.directories }
    for e in ← path.readDir do
      t ← load (l ++ [e.fileName]) t
    return t
  else if ← path.pathExists then
    if FileTree.isClassName l then return t.write l (← IO.FS.readBinFile path).toList
    else return t.write l []
  else return t

/-- The location that one name of a path leads to if all before it is a directory. -/
def goInto (l : Location) (name : String) : Location :=
  if name = "" ∨ name = "." then l
  else if name = ".." then l.dropLast
  else l ++ [name]

/-- The locations that a path passes, its own one first. -/
def passed (current : Location) (path : String) : List Location :=
  (path.splitOn "/").foldl (fun ls name => goInto (ls.headD []) name :: ls) [if path.startsWith "/" then [] else current]

end ThreeAddress.Command

open ThreeAddress.Command in
/-- Runs the command line. -/
def main (words : List String) : IO UInt32 := do
  let current := (passed [] (← IO.currentDir).toString).headD []
  let (paths, sink) := match Request.ofWords? words with
    | some (.run _ a) => (a.paths, a.setting? .output)
    | _ => ([], none)
  let mut tree : FileTree := { files := [], directories := [current], current }
  for path in paths ++ sink.toList do
    for l in passed current path do
      if ← (← systemPath l).isDir then tree := { tree with directories := l :: tree.directories }
  for path in paths do
    let l := (passed current path).headD []
    tree ← load l tree
    if FileTree.isClassName l then tree ← load (Session.readLocation l) tree
  let outcome := run words tree
  IO.print outcome.output
  if let some path := sink then
    if let some bytes := (outcome.tree.locate path).bind outcome.tree.read? then
      IO.FS.writeBinFile path (ByteArray.mk bytes.toArray)
  return outcome.exitCode.toUInt32
