import Uci.Document.Walk

/-!
# The browser

A browser shows the sections of a document in a list and what one of them holds beside
it. The keys move the choice round the list, from its end to its beginning and back.

* `App`, `App.ofDocument` — the state of a browser, and the one to begin with.
* `App.next`, `App.previous` — the next section, and the one before.
* `App.react` — what a key does.
-/

namespace Uci
namespace Browser

/-- The lines for an option or a list of the section that is shown. -/
def entryLines (d : Document) (h : Handle) : Except Refusal (List Text) := do
  match ← d.role h with
  | .option =>
    let name ← d.optionName h
    let value ← d.optionValue h
    return [name ++ " = ".toList ++ value]
  | .list =>
    let name ← d.listName h
    let values ← d.listValues h
    return (name ++ [':']) :: values.map ("  • ".toList ++ ·)
  | _ => return []

/-- **What a section holds**, line by line. -/
def sectionLines (d : Document) (s : Handle) : Except Refusal (List Text) := do
  let type ← d.sectionType s
  let name ← d.sectionName s
  let entries ← d.below s
  let lines ← entries.mapM (entryLines d)
  return ("type: ".toList ++ type) :: ("name: ".toList ++ name) :: [] :: lines.flatten

/-- What is shown for a section: its lines, or why it cannot be read. -/
def shownLines (d : Document) (s : Handle) : List Text :=
  match sectionLines d s with
  | .ok lines => lines
  | .error e => [s!"Error reading section: {e.message}".toList]

/-- An attribute of a section, or a question mark. -/
def orUnknown (r : Except Refusal Text) : Text := r.toOption.getD ['?']

/-- The name and the type of a section, as the list shows them. -/
def sectionTitle (d : Document) (s : Handle) : Text :=
  orUnknown (d.sectionName s) ++ " (".toList ++ orUnknown (d.sectionType s) ++ [')']

/-- **Browser**: a document, its sections, and which of them is chosen. -/
structure App where
  title : Text
  document : Document
  sections : List Handle
  /-- The place of the chosen section in the list. -/
  selected : Option Nat := none
  /-- What the chosen section holds. -/
  content : List Text := []
  deriving DecidableEq, Repr

namespace App

/-- Chooses the section at a place, and shows what it holds. -/
def select (a : App) (i : Nat) : App :=
  { a with
    selected := some i
    content := (a.sections[i]?.map (shownLines a.document)).getD a.content }

/-- **The browser to begin with**: the first section is chosen. -/
def ofDocument (title : Text) (d : Document) : App :=
  let a : App := { title, document := d, sections := d.sections }
  if d.sections.isEmpty then a else a.select 0

/-- The place behind the chosen one; the first place follows the last. -/
def following (a : App) : Nat :=
  match a.selected with
  | some i => (i + 1) % a.sections.length
  | none => 0

/-- The place before the chosen one; the last place comes before the first. -/
def preceding (a : App) : Nat :=
  match a.selected with
  | some (i + 1) => i
  | _ => a.sections.length - 1

/-- **The next section.** -/
def next (a : App) : App := if a.sections.isEmpty then a else a.select a.following

/-- **The section before.** -/
def previous (a : App) : App := if a.sections.isEmpty then a else a.select a.preceding

/-- The lines of the list. -/
def titles (a : App) : List Text := a.sections.map (sectionTitle a.document)

end App

/-- **Key** on a keyboard. -/
inductive Key where
  | up
  | down
  | left
  | right
  | enter
  | escape
  | char (c : Char)
  deriving DecidableEq, Repr

/-- What a terminal reports: a key, or something else that happened to it. -/
inductive Event where
  | key (k : Key)
  | other
  deriving DecidableEq, Repr

/-- What a key does to a browser: nothing is left if it ends it. -/
def App.press (a : App) : Key → Option App
  | .char 'q' | .escape => none
  | .down | .char 'j' => some a.next
  | .up | .char 'k' => some a.previous
  | _ => some a

/-- **What an event does.** -/
def App.react (a : App) : Event → Option App
  | .key k => a.press k
  | .other => some a

end Browser
end Uci
