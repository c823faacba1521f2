import Uci.Browser.App
import Uci.Command.Listing
import Uci.Document.Storage
import Uci.Log.Narration
import Uci.Settings.Storage
import Uci.Tool.Arguments
import Uci.Version

/-!
# A run of the program

A run reads the settings, which say where configurations are and how much goes to the
log, and then does what its arguments ask for. It ends with a code, with what it
printed, and with what it told on the way. A change of a configuration is written only
if the document took it.

* `Outcome` — what is left of a run.
* `Run` — steps of a run: they use files, print, write to the log, and may fail.
* `execute` — the steps of a command.
* `run` — a run, from its arguments.
-/

namespace Uci
namespace Tool

open Log (Record Filter)

/-- **Outcome** of a run. -/
structure Outcome where
  code : Nat
  out : Text := []
  err : Text := []
  deriving DecidableEq, Repr

/-- What a run has printed, and the records it has written. -/
structure Report where
  out : Text := []
  records : List Record := []
  deriving DecidableEq, Repr

/-- **Step of a run.** A failure is what is said about it, the reasons behind. -/
abbrev Run (m : Type → Type) (α : Type) := ExceptT (List String) (StateT Report m) α

variable {m : Type → Type} [Monad m] [FileSystem m]

/-- Prints a text. -/
def put (t : Text) : Run m Unit := modify fun r => { r with out := r.out ++ t }

/-- Writes records to the log. -/
def tell (records : List Record) : Run m Unit :=
  modify fun r => { r with records := r.records ++ records }

/-- Makes a step that may end in an error, and goes on with how it ended. -/
def attempt {ε α : Type} (step : ExceptT ε m α) : Run m (Except ε α) :=
  ExceptT.lift (StateT.lift step.run)

/-- Goes on with a result, or fails with what is said about an error. -/
def orFail {ε α : Type} (chain : ε → List String) : Except ε α → Run m α
  | .ok a => pure a
  | .error e => throw (chain e)

/-- What is said about a refusal. -/
def refusalChain (e : Refusal) : List String := (Error.refusal e).chain

/-! ### Configurations -/

/-- The document in a file, or the error in which the attempt ended. -/
def open? (config dir : Path) : Run m (Except Error Document) := do
  tell [⟨.debug, .files, s!"loading {(configPath config dir).str}"⟩]
  match ← attempt (readConfig (configPath config dir)) with
  | .error e => return .error (.file e)
  | .ok text =>
    tell (Document.tellParse text)
    return (Document.parse text).mapError .parse

/-- The document in a file. -/
def load (config dir : Path) : Run m Document := do
  orFail Error.chain (← open? config dir)

/-- The document in a file, or an empty one if there is no such file. -/
def loadOrNew (config dir : Path) : Run m Document := do
  match ← open? config dir with
  | .error (.file (.notFound _)) =>
    tell [⟨.info, .program, s!"{config.str} does not exist yet, starting empty"⟩]
    return .empty
  | r => orFail Error.chain r

/-- Writes a document into a file. -/
def save (d : Document) (config dir : Path) : Run m Unit := do
  tell [⟨.debug, .files, s!"writing {(configPath config dir).str}"⟩]
  orFail Error.chain (← attempt (d.save config dir))

/-- **Changes a configuration**: reads it, makes the change, writes it back, and prints
what the change answers. -/
def applyChange (config dir : Path) (c : Change) : Run m Unit := do
  let d ← loadOrNew config dir
  tell (d.tellChange c)
  let answer ← orFail refusalChain (c.edit.run d).1
  save (c.edit.run d).2 config dir
  put answer

/-! ### Settings -/

/-- The settings in their file, or those to begin with. -/
def loadSettings (env : Environment) : Run m Settings := do
  match ← attempt (Settings.load env (Settings.path env)) with
  | .ok found => return found.getD {}
  | .error e => throw (s!"loading {(Settings.path env).str}" :: e.chain)

/-- Writes the settings into their file. -/
def saveSettings (env : Environment) (s : Settings) : Run m Unit := do
  match ← attempt (s.save (Settings.path env)) with
  | .ok () => tell [⟨.info, .program, s!"saved {(Settings.path env).str}"⟩]
  | .error r => throw [s!"saving {(Settings.path env).str}", r.message]

/-- **Changes the settings**, if something is to be changed, and prints them. -/
def applySettings (env : Environment) (s : Settings) (directory filter : Option Text) :
    Run m Unit := do
  let changed ← orFail Settings.unknownFilter (s.change directory filter).1
  let s := (s.change directory filter).2
  if changed then saveSettings env s
  put s.text

/-! ### Commands -/

/-- **The steps of a command** on configurations in a directory. A browser is only made
ready: it is up to the terminal to show it. -/
def execute (env : Environment) (s : Settings) (dir : Path) :
    Command → Run m (Option Browser.App)
  | .list config path => do
    let d ← load config dir
    tell ((path.map d.tellQuery).getD [])
    put (← orFail refusalChain (d.list (packageLabel config) path))
    return none
  | .get config path => do
    let d ← load config dir
    tell (d.tellQuery path)
    put (← orFail refusalChain (d.get path))
    return none
  | .change config c => do
    applyChange config dir c
    return none
  | .browse config => do
    let d ← load config dir
    return some (.ofDocument config d)
  | .settings directory filter => do
    applySettings env s directory filter
    return none

/-- The log filter of a run: the one that its options ask for, or else the one settled;
a name that is none is passed over. -/
def logFilter (s : Settings) (verbosity : Nat) : Filter :=
  match verbosity with
  | 0 => (s.filter.bind Filter.named?).getD (.upTo .warn)
  | 1 => .upTo .info
  | 2 => .upTo .debug
  | _ => .upTo .trace

/-- The steps of a run once the settings are known. -/
def steps (env : Environment) (s : Settings) (o : Options) (c : Command) :
    Run m (Option Browser.App) := do
  let dir := s.resolve env o.directory
  tell [⟨.debug, .program, s!"config directory {dir.str}"⟩]
  execute env s dir c

/-! ### Runs -/

/-- A text with a line end behind it. -/
def lineOf (s : String) : Text := s.toList ++ ['\n']

/-- What is printed about a failure. -/
def failureLine (chain : List String) : Text := lineOf ("uci2: " ++ ": ".intercalate chain)

/-- The lines of the records that a filter lets through. -/
def logLines (f : Filter) (records : List Record) : Text :=
  (f.apply records).flatMap Record.written

/-- **Result of a run**: it is over, or a browser is to be shown, with what has gone to
the log before. -/
inductive Result where
  | over (o : Outcome)
  | browsing (err : Text) (a : Browser.App)
  deriving DecidableEq, Repr

/-- How a run ended, told from its report. -/
def resultOf (f : Filter) (ended : Except (List String) (Option Browser.App)) (r : Report) :
    Result :=
  let err := logLines f r.records
  match ended with
  | .ok none => .over { code := 0, out := r.out, err }
  | .ok (some a) => .browsing err a
  | .error chain => .over { code := 1, out := r.out, err := err ++ failureLine chain }

/-- How a run ended that showed a browser: by a key, or because no more could be read
from the terminal. -/
def browsed (err : Text) : Option String → Outcome
  | none => { code := 0, err }
  | some reason => { code := 1, err := err ++ failureLine [reason] }

/-- How the program is called. -/
def usage : Text :=
  "Read and edit UCI configuration files\n\nUsage: uci2 [OPTIONS] <COMMAND>\n".toList

/-- **A run of the program**, from its arguments. -/
def run (env : Environment) (arguments : List Text) : m Result := do
  match readArguments arguments with
  | .error .misused => return .over { code := 2, err := usage }
  | .error .version => return .over { code := 0, out := lineOf s!"uci2 {Version.text}" }
  | .error .help => return .over { code := 0, out := usage }
  | .ok (options, command) =>
    let (settings, _) ← (loadSettings env : Run m Settings).run.run {}
    match settings with
    | .error chain => return resultOf (.upTo .warn) (.error chain) {}
    | .ok s =>
      let (ended, report) ← (steps env s options command : Run m _).run.run {}
      return resultOf (logFilter s options.verbosity) ended report

end Tool
end Uci
