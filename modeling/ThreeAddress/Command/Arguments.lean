/-!
# Arguments

What the words of a command line ask for. Options may stand before, between and behind the paths, short ones can be joined into one word,
and two hyphens end them. An option at most once; one with a value takes it from its own word or from the next one, which then must not
look like an option.
-/

namespace ThreeAddress.Command

/-- An option without a value. -/
inductive Switch where
  | lineNumbers
  | keepGoing
  | verbose
  deriving DecidableEq, Inhabited

/-- An option with a value. -/
inductive Setting where
  | output
  | method
  deriving DecidableEq, Inhabited

/-- What the name of an option stands for. -/
inductive OptionMeaning where
  | switch (s : Switch)
  | setting (s : Setting)
  | help
  deriving DecidableEq, Inhabited

inductive Verb where
  | lower
  | signatures
  deriving DecidableEq, Inhabited

namespace Verb

/-- The verb that a word is. -/
def ofWord? : String → Option Verb
  | "lower" => some .lower
  | "signatures" => some .signatures
  | _ => none

/-- What the long name of an option stands for. -/
def long? : Verb → String → Option OptionMeaning
  | _, "verbose" => some (.switch .verbose)
  | _, "help" | _, "version" => some .help
  | .lower, "line-numbers" => some (.switch .lineNumbers)
  | .lower, "keep-going" => some (.switch .keepGoing)
  | .lower, "output" => some (.setting .output)
  | .lower, "method" => some (.setting .method)
  | _, _ => none

/-- What the short name of an option stands for. -/
def short? : Verb → Char → Option OptionMeaning
  | _, 'v' => some (.switch .verbose)
  | _, 'h' | _, 'V' => some .help
  | .lower, 'o' => some (.setting .output)
  | .lower, 'm' => some (.setting .method)
  | _, _ => none

end Verb

/-- The words after a verb, sorted out. -/
structure Arguments where
  paths : List String
  switches : List Switch
  settings : List (Setting × String)
  /-- Some option got no value where it needs one. -/
  missingValue : Bool
  deriving DecidableEq, Inhabited

/-- What one word, or one character of a word, amounts to. -/
inductive Step where
  | next (args : Arguments)
  /-- The value of a setting is the next word. -/
  | needs (args : Arguments) (setting : Setting)
  | help
  | unknown
  deriving DecidableEq

/-- What a command line asks for. -/
inductive Request where
  | nothing
  | help
  | run (verb : Verb) (args : Arguments)
  deriving DecidableEq, Inhabited

namespace Arguments

def empty : Arguments :=
  { paths := [], switches := [], settings := [], missingValue := false }

def addPath (a : Arguments) (path : String) : Arguments :=
  { a with paths := a.paths ++ [path] }

def addSwitch (a : Arguments) (s : Switch) : Arguments :=
  { a with switches := a.switches ++ [s] }

def addSetting (a : Arguments) (s : Setting) (value : String) : Arguments :=
  { a with settings := a.settings ++ [(s, value)] }

/-- A value that follows the name of an option in one word; equals signs before it do not belong to it. -/
def joinedValue (cs : List Char) : String :=
  String.ofList (cs.dropWhile (· = '='))

/-- Takes a word with a long name, given without its hyphens. A switch ignores a value. -/
def takeLong (verb : Verb) (a : Arguments) (cs : List Char) : Step :=
  let name := cs.takeWhile (· ≠ '=')
  match verb.long? (String.ofList name), cs.drop name.length with
  | some (.switch s), _ => .next (a.addSwitch s)
  | some (.setting s), [] => .needs a s
  | some (.setting s), value => .next (a.addSetting s (joinedValue value))
  | some .help, _ => .help
  | none, _ => .unknown

/-- Takes a word of short names, given without its hyphen. Behind the name of a setting the rest of the word is its value. -/
def takeShort (verb : Verb) (a : Arguments) : List Char → Step
  | [] => .next a
  | c :: cs =>
    match verb.short? c with
    | some (.switch s) => takeShort verb (a.addSwitch s) cs
    | some (.setting s) => if cs.isEmpty then .needs a s else .next (a.addSetting s (joinedValue cs))
    | some .help => .help
    | none => .unknown

/-- Takes a word that looks like an option. -/
def takeOption (verb : Verb) (a : Arguments) (word : List Char) : Step :=
  let name := word.dropWhile (· = '-')
  if word.take 2 = ['-', '-'] then takeLong verb a name else takeShort verb a name

/-- A hyphen with something behind it. -/
def looksLikeOption (word : String) : Bool :=
  word.startsWith "-" && word.length != 1

/-- Takes the words after a verb; `waiting` is the setting whose value the next word may be. None for an option that does not exist. -/
def take (verb : Verb) (a : Arguments) (waiting : Option Setting) : List String → Option Request
  | [] => some (.run verb { a with missingValue := a.missingValue || waiting.isSome })
  | word :: rest =>
    let missing := { a with missingValue := a.missingValue || waiting.isSome }
    if word = "--" then some (.run verb { missing with paths := a.paths ++ rest })
    else if looksLikeOption word then
      match takeOption verb missing word.toList with
      | .next a => take verb a none rest
      | .needs a s => take verb a (some s) rest
      | .help => some .help
      | .unknown => none
    else
      match waiting with
      | some s => take verb (a.addSetting s word) none rest
      | none => take verb (a.addPath word) none rest

/-- Every option stands at most once and has its value, and there is a path. -/
def isComplete (a : Arguments) : Bool :=
  !a.missingValue && !a.paths.isEmpty && decide a.switches.Nodup && decide (a.settings.map (·.1)).Nodup

/-- The value of a setting. -/
def setting? (a : Arguments) (s : Setting) : Option String :=
  a.settings.lookup s

end Arguments

/-- The words that ask for help in place of a verb. -/
def asksForHelp (word : String) : Bool :=
  let name := word.toList.dropWhile (· = '-')
  if word.startsWith "--" then ["help", "version"].contains (String.ofList (name.takeWhile (· ≠ '=')))
  else if word.startsWith "-" then name.head? == some 'h' || name.head? == some 'V'
  else word == "help"

/-- What a command line asks for; none if it cannot be understood. -/
def Request.ofWords? : List String → Option Request
  | [] | ["--"] => some .nothing
  | word :: rest =>
    match Verb.ofWord? word with
    | some verb =>
      match Arguments.take verb .empty none rest with
      | some (.run verb args) => if args.isComplete then some (.run verb args) else none
      | r => r
    | none => if asksForHelp word then some .help else none

end ThreeAddress.Command
