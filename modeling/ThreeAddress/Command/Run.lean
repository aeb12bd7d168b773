import ThreeAddress.ClassFile.Methods
import ThreeAddress.Command.Arguments
import ThreeAddress.Command.FileTree
import ThreeAddress.IR.Listing

/-!
# Running a command

What a command does to a file tree and what it writes to its output. All paths are resolved before the first class file is read; what was
written before a failure stays.
-/

namespace ThreeAddress.Command

/-- What a command has written so far, and the tree it works on. -/
structure Session where
  tree : FileTree
  /-- The file to which the command writes instead of the standard output. -/
  sink : Option Location
  output : String
  deriving DecidableEq

/-- How a command ended. -/
structure Outcome where
  exitCode : Nat
  output : String
  tree : FileTree
  deriving DecidableEq

namespace Session

/-- Writes a line. -/
def writeLine (s : Session) (line : String) : Session :=
  match s.sink with
  | none => { s with output := s.output ++ line ++ "\n" }
  | some l => { s with tree := s.tree.write l (((s.tree.read? l).getD []) ++ (line ++ "\n").toUTF8.toList) }

/-- The name of a class file without its ending. A name that is nothing but the ending keeps it. The ending goes in two steps, its letters
and then its point; of `..class` the first step leaves the name of the directory above, which has no ending, so that the point stays. -/
def stem (name : String) : String :=
  if name = ".class" then name
  else if name = "..class" then ".."
  else (name.dropEnd ".class".length).toString

/-- Where a class file is read from: its stem, with the ending put on again. -/
def readLocation (l : Location) : Location :=
  match l.getLast? with
  | some name => l.dropLast ++ [stem name ++ ".class"]
  | none => l

/-- The methods of a class file. -/
def methods? (s : Session) (l : Location) : Option (List Method) := do
  let bytes ← s.tree.read? (readLocation l)
  let c ← ClassFile.ClassInfo.ofBytes? bytes
  c.toMethods.toOption

/-- What a command does with one method: nothing more than to go on, or to go on after a line, or to give up. -/
inductive Treatment where
  | pass
  | line (text : String)
  | giveUp
  deriving DecidableEq

/-- Treats methods one after another; the flag tells whether none of them made the command give up. -/
def treatAll (treat : Method → Treatment) (s : Session) : List Method → Session × Bool
  | [] => (s, true)
  | m :: ms =>
    match treat m with
    | .pass => treatAll treat s ms
    | .line text => treatAll treat (s.writeLine text) ms
    | .giveUp => (s, false)

/-- Treats the methods of class files one after another. -/
def treatFiles (treat : Method → Treatment) (s : Session) : List Location → Session × Bool
  | [] => (s, true)
  | l :: ls =>
    match s.methods? l with
    | none => (s, false)
    | some ms =>
      match s.treatAll treat ms with
      | (s, true) => treatFiles treat s ls
      | (s, false) => (s, false)

end Session

open Session in
/-- What a verb does with a method. -/
def treatment (verb : Verb) (a : Arguments) (m : Method) : Treatment :=
  match verb with
  | .signatures => .line m.text
  | .lower =>
    if (a.setting? .method).any (· ≠ m.name) then .pass
    else
      match m.lower (a.switches.contains .lineNumbers) with
      | .ok body => .line body.text
      | .error _ => if a.switches.contains .keepGoing then .pass else .giveUp

/-- Makes the file to which a command writes, empty. None if it cannot be made. -/
def openSink (t : FileTree) (a : Arguments) : Option Session :=
  match a.setting? .output with
  | none => some { tree := t, sink := none, output := "" }
  | some path => do
    let l ← t.locate path
    if t.isDirectory l then none else some { tree := t.write l [], sink := some l, output := "" }

/-- Runs a verb on its paths. -/
def runVerb (verb : Verb) (a : Arguments) (t : FileTree) : Outcome :=
  match openSink t a with
  | none => { exitCode := 1, output := "", tree := t }
  | some s =>
    match a.paths.mapM s.tree.classFiles with
    | none => { exitCode := 1, output := "", tree := s.tree }
    | some files =>
      let (s, ok) := s.treatFiles (treatment verb a) files.flatten
      { exitCode := if ok then 0 else 1, output := s.output, tree := s.tree }

/-- What a request for help gets. -/
def helpText : String :=
  "lower [-o FILE] [-m NAME] [--line-numbers] [--keep-going] [-v] PATH...\n" ++
  "signatures [-v] PATH...\n"

/-- Runs a command line on a file tree. -/
def run (words : List String) (t : FileTree) : Outcome :=
  match Request.ofWords? words with
  | none => { exitCode := 1, output := "", tree := t }
  | some .nothing => { exitCode := 0, output := "", tree := t }
  | some .help => { exitCode := 0, output := helpText, tree := t }
  | some (.run verb a) => runVerb verb a t

end ThreeAddress.Command
