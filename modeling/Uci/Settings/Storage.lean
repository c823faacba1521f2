import Uci.Settings.Basic

/-!
# The file of the settings

* `Settings.load` — the settings in a file, if there is one.
* `Settings.save` — the file, from settings.
-/

namespace Uci

/-- Why a file of settings cannot be used. -/
inductive SettingsError where
  | unreadable (path : Path) (reason : FileReason)
  | malformed (path : Path)
  deriving DecidableEq, Repr

/-- What is said about it, with the reason behind it. -/
def SettingsError.chain : SettingsError → List String
  | unreadable path reason =>
    [s!"Failed to read config file at {path.str}: {reason.message}", reason.message]
  | malformed path => [s!"Failed to parse config file at {path.str}"]

namespace Settings

variable {m : Type → Type} [Monad m] [FileSystem m]

/-- **The settings in a file**, or none if nothing is there. -/
def load (env : Environment) (p : Path) : ExceptT SettingsError m (Option Settings) := do
  match ← (FileSystem.kind p : m _) with
  | .error _ => return none
  | .ok _ =>
    match ← (FileSystem.readText p : m _) with
    | .error r => throw (.unreadable p r)
    | .ok t =>
      match ofText? env t with
      | some s => return some s
      | none => throw (.malformed p)

/-- **Writes settings into a file.** -/
def save (s : Settings) (p : Path) : ExceptT FileReason m Unit := do
  match p.parent? with
  | some dir => ExceptT.mk (FileSystem.makeDirectories (m := m) dir)
  | none => pure ()
  ExceptT.mk (FileSystem.writeText (m := m) p s.text)

end Settings
end Uci
