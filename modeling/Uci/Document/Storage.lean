import Uci.Document.Print
import Uci.Error

/-!
# Documents in files

* `Document.load` — the document in the file of a configuration.
* `Document.save` — the file of a configuration, from a document.
-/

namespace Uci
namespace Document

variable {m : Type → Type} [Monad m] [FileSystem m]

/-- A step on files, whose error is one of the errors there are. -/
def onFile {α : Type} (step : ExceptT FileError m α) : ExceptT Error m α :=
  ExceptT.adapt Error.file step

/-- **The document in a file.** -/
def load (name dir : Path) : ExceptT Error m Document := do
  let text ← onFile (readConfig (configPath name dir))
  match parse text with
  | .ok d => return d
  | .error e => throw (.parse e)

/-- **Writes a document into a file.** -/
def save (d : Document) (name dir : Path) : ExceptT Error m Unit :=
  onFile (writeConfig (configPath name dir) d.print)

end Document
end Uci
