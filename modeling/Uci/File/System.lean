import Uci.File.Path

/-!
# File systems

What the library asks of a file system: to say what is at a path, and to read, write,
create and remove. An answer is a result or the reason why there is none, in the
words of the system.

* `FileReason` — why the system declines.
* `FileSystem` — the operations, in any monad that has them.
* `makeDirectories` — a directory with all directories above it.
-/

namespace Uci

/-- **Reason** for which a file system declines. -/
inductive FileReason where
  | notFound
  | exists
  | notADirectory
  | isADirectory
  | nameTooLong
  /-- The path holds a NUL character. -/
  | nulInName
  /-- The bytes of the file are no text. -/
  | notText
  /-- Not even the top of the path could be made. -/
  | noTop
  /-- A reason in the words of a system. -/
  | stated (message : Text)
  deriving DecidableEq, Repr

/-- The words for a reason. -/
def FileReason.message : FileReason → String
  | notFound => "No such file or directory (os error 2)"
  | .exists => "File exists (os error 17)"
  | notADirectory => "Not a directory (os error 20)"
  | isADirectory => "Is a directory (os error 21)"
  | nameTooLong => "File name too long (os error 36)"
  | nulInName => "file name contained an unexpected NUL byte"
  | notText => "stream did not contain valid UTF-8"
  | noTop => "failed to create whole tree"
  | stated message => message.str

/-- What can be at a path. -/
inductive FileKind where
  | file
  | directory
  deriving DecidableEq, Repr

/-- **File system**: the operations that the library needs. -/
class FileSystem (m : Type → Type) where
  /-- What is at a path. -/
  kind : Path → m (Except FileReason FileKind)
  /-- The text of a file. -/
  readText : Path → m (Except FileReason Text)
  /-- Gives a file, which may be new, the text. -/
  writeText : Path → Text → m (Except FileReason Unit)
  /-- Makes a directory; the one above it has to be there. -/
  makeDirectory : Path → m (Except FileReason Unit)
  /-- Removes a file. -/
  removeFile : Path → m (Except FileReason Unit)

namespace FileSystem

variable {m : Type → Type} [Monad m] [FileSystem m]

/-- Whether there is a directory at a path. -/
def isDirectory (p : Path) : m Bool := do
  match ← kind p with
  | .ok .directory => return true
  | _ => return false

/-- Makes a directory unless there is one already. -/
def ensureDirectory (p : Path) : m (Except FileReason Unit) := do
  match ← makeDirectory p with
  | .ok () => return .ok ()
  | .error r => return if ← isDirectory p then .ok () else .error r

/-- `makeDirectories`, for a path of at most `steps` pieces. -/
def makeDirectoriesWithin : Nat → Path → m (Except FileReason Unit)
  | 0, _ => return .error .noTop
  | steps + 1, p =>
    if p.isEmpty then return .ok ()
    else do
      match ← makeDirectory p with
      | .ok () => return .ok ()
      | .error .notFound =>
        match p.parent? with
        | none => return .error .noTop
        | some above =>
          match ← makeDirectoriesWithin steps above with
          | .ok () => ensureDirectory p
          | .error r => return .error r
      | .error r => return if ← isDirectory p then .ok () else .error r

/-- **Makes a directory** and whatever directory is missing above it. A path has no
more pieces than characters. -/
def makeDirectories (p : Path) : m (Except FileReason Unit) :=
  makeDirectoriesWithin (p.length + 1) p

end FileSystem
end Uci
