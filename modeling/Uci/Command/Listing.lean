import Uci.Document.Lookup
import Uci.Document.Walk

/-!
# Listings

A document as lines that a shell can read. A section is listed by its type, an
option by its value, and a list by its values with spaces between them; all values
are quoted for the shell.

* `shellQuote` — a text as one word of a shell.
* `Document.list`, `Document.listSection`, `Document.listEntry` — the lines.
* `Document.get` — what a path leads to, bare.
-/

namespace Uci

/-- **A text as one word of a shell**: between single quotes, which a single quote
in the text interrupts. -/
def shellQuote (t : Text) : Text :=
  '\'' :: (t.flatMap fun c => if c = '\'' then ['\'', '\\', '\'', '\''] else [c]) ++ ['\'']

/-- Texts with single spaces between them. -/
def spaced (texts : List Text) : Text := [' '].intercalate texts

namespace Document

/-- The line of an option or a list, behind the label of its section; any other node
has no line. -/
def listEntry (d : Document) (label : Text) (h : Handle) : Except Refusal Text := do
  match ← d.role h with
  | .option =>
    let name ← d.optionName h
    let value ← d.optionValue h
    return label ++ '.' :: name ++ '=' :: shellQuote value ++ ['\n']
  | .list =>
    let values ← d.listValues h
    let name ← d.listName h
    return label ++ '.' :: name ++ '=' :: spaced (values.map shellQuote) ++ ['\n']
  | _ => return []

/-- The label of a section in the configuration `config`. -/
def sectionLabel (d : Document) (config : Text) (s : Handle) : Except Refusal Text := do
  let name ← d.sectionName s
  return config ++ '.' :: name

/-- The lines of a section: its own, then those of its entries. -/
def listSection (d : Document) (config : Text) (s : Handle) : Except Refusal Text := do
  let label ← d.sectionLabel config s
  let type ← d.sectionType s
  let entries ← d.below s
  let lines ← entries.mapM (d.listEntry label)
  return label ++ '=' :: type ++ '\n' :: lines.flatten

/-- The lines of all sections. -/
def listAll (d : Document) (config : Text) : Except Refusal Text := do
  let blocks ← d.sections.mapM (d.listSection config)
  return blocks.flatten

/-- The section that holds an entry. -/
def sectionAround (d : Document) (h : Handle) : Except Refusal Handle := do
  let found ← d.sections.findM? fun s => do
    let entries ← d.below s
    return entries.contains h
  match found with
  | some s => return s
  | none => .error (.absence (.sectionAround h))

/-- **The listing** of a whole document, or of what a path leads to: a section with
its entries, or the line of one entry. -/
def list (d : Document) (config : Text) : Option Text → Except Refusal Text
  | none => d.listAll config
  | some path => do
    let h ← d.query path
    match ← d.role h with
    | .section => d.listSection config h
    | .option | .list =>
      let s ← d.sectionAround h
      let label ← d.sectionLabel config s
      d.listEntry label h
    | .root | .element => d.listAll config

/-- **What a path leads to**: the type of a section, the value of an option, or the
values of a list. -/
def get (d : Document) (path : Text) : Except Refusal Text := do
  let h ← d.query path
  let text ← match ← d.role h with
    | .section => d.sectionType h
    | .option => d.optionValue h
    | .list => d.listValues h |>.map spaced
    | role => .error (.misuse (.nothingToPrint path role))
  return text ++ ['\n']

end Document
end Uci
