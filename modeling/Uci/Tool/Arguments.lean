import Uci.Command.Change
import Uci.File.Path

/-!
# The arguments of the program

The program is called with options, the name of a subcommand, and what that is about.
The options that every subcommand shares may stand on either side of its name; what
stands behind it counts. An argument that begins with a dash is an option, apart from
a lone dash and from all arguments behind a double dash.

* `Options`, `Command` — what the arguments ask for.
* `Stop` — why nothing is to be run.
* `readArguments` — the options and the command in a list of arguments.
-/

namespace Uci
namespace Tool

/-- **Options** that all subcommands share. -/
structure Options where
  directory : Option Path := none
  /-- How often more of the log was asked for. -/
  verbosity : Nat := 0
  deriving DecidableEq, Repr

/-- **Command** of the program, with the configuration it is about. -/
inductive Command where
  | list (config : Path) (path : Option Text)
  | get (config : Path) (path : Text)
  | change (config : Path) (change : Change)
  | browse (config : Path)
  | settings (directory filter : Option Text)
  deriving DecidableEq, Repr

/-- Why arguments ask for no command. -/
inductive Stop where
  /-- They are not understood. -/
  | misused
  | version
  | help
  deriving DecidableEq, Repr

/-! ### Options -/

/-- An option that a value follows. -/
inductive Setting where
  | directory
  | newDirectory
  | newFilter
  deriving DecidableEq, Repr

/-- An option by its name. -/
inductive Switch where
  | verbose
  | version
  | help
  | setting (s : Setting)
  deriving DecidableEq, Repr

/-- What may stand on one side of the name of the subcommand. -/
structure Level where
  /-- Options by their long names. -/
  long : List (Text × Switch)
  /-- Options by a letter. -/
  short : List (Char × Switch)
  /-- How many arguments are taken that are no options. On the side in front of the
  name there are none, and the first argument ends it. -/
  room : Option Nat

/-- The options on both sides, by their long names. -/
def sharedLong : List (Text × Switch) :=
  [("config-dir".toList, .setting .directory), ("verbose".toList, .verbose),
    ("help".toList, .help)]

/-- The options on both sides, by a letter. -/
def sharedShort : List (Char × Switch) :=
  [('c', .setting .directory), ('v', .verbose), ('h', .help)]

/-- In front of the name. -/
def Level.front : Level where
  long := ("version".toList, .version) :: sharedLong
  short := ('V', .version) :: sharedShort
  room := none

/-- What one side of the name says. -/
structure Draft where
  settings : List (Setting × Text) := []
  verbosity : Nat := 0
  /-- The arguments that are no options. -/
  words : List Text := []
  deriving DecidableEq, Repr

namespace Draft

/-- Takes the value of an option. No option is given twice on one side, and no
directory is empty. -/
def give (d : Draft) (s : Setting) (value : Text) : Except Stop Draft :=
  if (d.settings.lookup s).isSome || (value.isEmpty && s ≠ .newFilter) then .error .misused
  else .ok { d with settings := (s, value) :: d.settings }

/-- Takes an option without value. -/
def flag (d : Draft) : Switch → Except Stop Draft
  | .verbose => .ok { d with verbosity := d.verbosity + 1 }
  | .version => .error .version
  | .help => .error .help
  | .setting _ => .error .misused

/-- Takes an argument that is no option. -/
def word (d : Draft) (room : Nat) (t : Text) : Except Stop Draft :=
  if d.words.length < room then .ok { d with words := d.words ++ [t] } else .error .misused

end Draft

/-- Whether an argument can be the value of an option in front of it. -/
def isValue (t : Text) : Bool := t.head? ≠ some '-' || t = ['-']

/-- What is left to take behind an argument: nothing, or the value of an option. -/
inductive Pending where
  | nothing
  | value (s : Setting)
  deriving DecidableEq, Repr

/-- Takes an argument that begins with two dashes. -/
def takeLong (level : Level) (d : Draft) (t : Text) : Except Stop (Draft × Pending) :=
  let name := t.takeWhile (· ≠ '=')
  match level.long.lookup name, t.dropWhile (· ≠ '=') with
  | some (.setting s), [] => .ok (d, .value s)
  | some (.setting s), _ :: value => (d.give s value).map ((·, .nothing))
  | some s, [] => (d.flag s).map ((·, .nothing))
  | _, _ => .error .misused

/-- Takes the letters behind a single dash. A letter whose option has a value takes all
that follows it, an equals sign apart. -/
def takeShort (level : Level) (d : Draft) : Text → Except Stop (Draft × Pending)
  | [] => .ok (d, .nothing)
  | c :: t =>
    match level.short.lookup c with
    | none => .error .misused
    | some (.setting s) =>
      match t with
      | [] => .ok (d, .value s)
      | '=' :: value => (d.give s value).map ((·, .nothing))
      | value => (d.give s value).map ((·, .nothing))
    | some s => do
      let d ← d.flag s
      takeShort level d t

/-- Takes an argument that begins with a dash. -/
def takeOption (level : Level) (d : Draft) : Text → Except Stop (Draft × Pending)
  | '-' :: '-' :: t => takeLong level d t
  | '-' :: t => takeShort level d t
  | _ => .error .misused

/-- Takes arguments that are no options. -/
def takeWords (room : Nat) (d : Draft) (words : List Text) : Except Stop Draft :=
  words.foldlM (fun d t => d.word room t) d

/-- **Takes the arguments of one side**, from those given. Answers also those that are
left, which begin with the name of the subcommand. -/
def takeSide (level : Level) (d : Draft) : List Text → Except Stop (Draft × List Text)
  | [] => .ok (d, [])
  | t :: rest =>
    if t = ['-', '-'] then (takeWords (level.room.getD 0) d rest).map ((·, []))
    else if isValue t then
      match level.room with
      | none => .ok (d, t :: rest)
      | some room => do
        let d ← d.word room t
        takeSide level d rest
    else
      match takeOption level d t with
      | .error stop => .error stop
      | .ok (d, .nothing) => takeSide level d rest
      | .ok (d, .value s) =>
        match rest with
        | [] => .error .misused
        | value :: rest =>
          if isValue value then do
            let d ← d.give s value
            takeSide level d rest
          else .error .misused

/-! ### Subcommands -/

/-- **Subcommand**, by what it does. -/
inductive Subcommand where
  | list
  | get
  | set
  | add
  | append
  | delete
  | rename
  | browse
  | settings
  deriving DecidableEq, Repr

namespace Subcommand

/-- The names of the subcommands. -/
def names : List (Text × Subcommand) :=
  [("show".toList, list), ("get".toList, get), ("set".toList, set), ("add".toList, add),
    ("add-list".toList, append), ("delete".toList, delete), ("rename".toList, rename),
    ("browse".toList, browse), ("settings".toList, settings)]

/-- How many arguments a subcommand takes at most. -/
def room : Subcommand → Nat
  | settings => 0
  | browse => 1
  | list | get | delete => 2
  | set | add | append | rename => 3

/-- What may stand behind the name of a subcommand. -/
def level (s : Subcommand) : Level where
  long :=
    if s = settings then
      ("default-dir".toList, .setting .newDirectory) ::
        ("log-level".toList, .setting .newFilter) :: sharedLong
    else sharedLong
  short := sharedShort
  room := some s.room

/-- The command that a subcommand stands for, with the arguments that it got. -/
def command? (s : Subcommand) (d : Draft) : Option Command :=
  match s, d.words with
  | list, [config] => some (.list config none)
  | list, [config, path] => some (.list config (some path))
  | get, [config, path] => some (.get config path)
  | set, [config, path, value] => some (.change config (.set path value))
  | add, [config, type] => some (.change config (.add type none))
  | add, [config, type, name] => some (.change config (.add type (some name)))
  | append, [config, path, value] => some (.change config (.append path value))
  | delete, [config, path] => some (.change config (.delete path))
  | rename, [config, path, name] => some (.change config (.rename path name))
  | browse, [config] => some (.browse config)
  | settings, [] =>
    some (.settings (d.settings.lookup .newDirectory) (d.settings.lookup .newFilter))
  | _, _ => none

end Subcommand

/-- The options of both sides; those behind the name win. -/
def options (front back : Draft) : Options where
  directory := (back.settings.lookup .directory).or (front.settings.lookup .directory)
  verbosity := if back.verbosity = 0 then front.verbosity else back.verbosity

/-- Whether the arguments behind `help` name a subcommand, or nothing. -/
def isHelpTopic : List Text → Bool
  | [] => true
  | [name] => (Subcommand.names.lookup name).isSome || name = "help".toList
  | _ => false

/-- **What a list of arguments asks for.** -/
def readArguments (arguments : List Text) : Except Stop (Options × Command) := do
  let (front, rest) ← takeSide .front {} arguments
  match rest with
  | [] => .error .misused
  | name :: rest =>
    match Subcommand.names.lookup name with
    | none =>
      .error (if name = "help".toList && isHelpTopic rest then .help else .misused)
    | some s => do
      let (back, _) ← takeSide s.level {} rest
      match s.command? back with
      | some c => return (options front back, c)
      | none => .error .misused

end Tool
end Uci
