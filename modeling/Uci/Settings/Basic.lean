import Uci.File.Configuration
import Uci.Log.Record
import Uci.Settings.Expansion
import Uci.Settings.Toml.Reader
import Uci.Settings.Toml.Writer
import Uci.Text.Escape

/-!
# Settings

What a person has settled for the program: the directory of the configurations, and
how much goes to the log. Both stand in one file, from which other keys are ignored.

* `Settings`, `Settings.ofText?`, `Settings.text` — settings, and their file.
* `Settings.change` — new settings, unless a name is not that of a log filter.
* `Settings.resolve` — the directory of a run.
-/

namespace Uci

/-- **Settings** of the program. -/
structure Settings where
  directory : Path := defaultDirectory
  /-- The name of a log filter, as it was given. -/
  filter : Option Text := none
  deriving DecidableEq, Repr

namespace Settings

/-- The key of the directory. -/
def directoryKey : Text := "config_dir".toList

/-- The key of the log filter. -/
def filterKey : Text := "log_level".toList

/-- A key that is given a string, or is not given at all. -/
def textAt? (table : Toml.Table) (key : Text) : Option (Option Text) :=
  match table.get? key with
  | none => some none
  | some (.value (.text t)) => some (some t)
  | _ => none

/-- **The settings in a text**, if it is one of that form. Variables and the home
directory are put into the directory. -/
def ofText? (env : Environment) (t : Text) : Option Settings := do
  let table ← Toml.read? t
  let directory ← textAt? table directoryKey
  let filter ← textAt? table filterKey
  return { directory := env.expand (directory.getD defaultDirectory), filter }

/-- **The text of settings.** -/
def text (s : Settings) : Text :=
  Toml.writeAssignment directoryKey s.directory ++
    (s.filter.map (Toml.writeAssignment filterKey)).getD []

/-- What is said about a name that is not that of a log filter. -/
def unknownFilter (name : Text) : List String :=
  [s!"{name.quoted} is not a log level",
    "attempted to convert a string that doesn't match an existing log level"]

/-- **Changes settings**: the directory first, then the log filter, of which the name is
checked. Answers whether anything changed, or the name that was refused. -/
def change (directory filter : Option Text) (s : Settings) : Except Text Bool × Settings :=
  let s := { s with directory := directory.getD s.directory }
  match filter with
  | none => (.ok directory.isSome, s)
  | some name =>
    if (Log.Filter.named? name).isSome then (.ok true, { s with filter := some name })
    else (.error name, s)

/-- **The directory of a run**: the one that is asked for, or else the one settled. -/
def resolve (env : Environment) (s : Settings) (flag : Option Path) : Path :=
  match flag with
  | some dir => env.expand dir
  | none => s.directory

/-- The file of the settings, below the home directory. -/
def path (env : Environment) : Path :=
  Path.join (env.expandHome "~/.config/uci2".toList) "config.toml".toList

end Settings
end Uci
