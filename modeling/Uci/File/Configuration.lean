import Uci.File.System

/-!
# Configuration files

A configuration is a file below a directory of configurations, or anywhere if it is
given by an absolute path. To write one is to make the directories above it and to
replace what it held.

* `FileError` — why a file cannot be used.
* `configPath` — where a configuration is.
* `readConfig`, `writeConfig`, `removeConfig` — its file.
-/

namespace Uci

/-- **File error**: why a file cannot be used. -/
inductive FileError where
  | notFound (path : Path)
  /-- There is something else than a file. -/
  | notAFile (path : Path)
  | failed (path : Path) (reason : FileReason)
  deriving DecidableEq, Repr

/-- The words for a file error. -/
def FileError.message : FileError → String
  | notFound path => s!"File not found: {path.str}"
  | notAFile path => s!"Not a regular file: {path.str}"
  | failed path reason => s!"IO error on {path.str}: {reason.message}"

/-- The directory of configurations, if nobody names another. -/
def defaultDirectory : Path := "/etc/config".toList

/-- **Where the configuration `name` is**: below `dir`, unless it is absolute. -/
def configPath (name dir : Path) : Path := dir.join name

variable {m : Type → Type} [Monad m] [FileSystem m]

/-- A step on a path, as a step whose error names the path. -/
def atPath {α : Type} (p : Path) (step : m (Except FileReason α)) : ExceptT FileError m α :=
  ExceptT.mk do
    match ← step with
    | .ok a => return .ok a
    | .error r => return .error (.failed p r)

/-- The same, where nothing may be at the path. -/
def atKnownPath {α : Type} (p : Path) (step : m (Except FileReason α)) : ExceptT FileError m α :=
  ExceptT.mk do
    match ← step with
    | .ok a => return .ok a
    | .error .notFound => return .error (.notFound p)
    | .error r => return .error (.failed p r)

/-- The text of a configuration. -/
def readConfig (p : Path) : ExceptT FileError m Text := do
  match ← atKnownPath p (FileSystem.kind p) with
  | .directory => throw (.notAFile p)
  | .file => atPath p (FileSystem.readText p)

/-- Gives a configuration another text. -/
def writeConfig (p : Path) (text : Text) : ExceptT FileError m Unit := do
  match p.parent? with
  | some dir => atPath dir (FileSystem.makeDirectories dir)
  | none => pure ()
  atPath p (FileSystem.writeText p text)

/-- Removes a configuration. -/
def removeConfig (p : Path) : ExceptT FileError m Unit := do
  if ← FileSystem.isDirectory (m := m) p then throw (.notAFile p)
  else atKnownPath p (FileSystem.removeFile p)

end Uci
