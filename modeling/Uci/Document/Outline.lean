import Uci.Document.Walk

/-!
# Outlines

What a document says, without handles and without the nodes it once had: its
sections, each with its type, its name and its entries.

* `EntryOutline`, `SectionOutline` — entries and sections by what they say.
* `Document.outline` — every section of a document, or why it cannot be read.
-/

namespace Uci

/-- An entry of a section by what it says. -/
inductive EntryOutline where
  | option (name value : Text)
  | list (name : Text) (values : List Text)
  deriving DecidableEq, Repr

/-- A section by what it says. -/
structure SectionOutline where
  type : Text
  name : Text
  entries : List EntryOutline
  deriving DecidableEq, Repr

namespace Document

/-- An option or a list by what it says; any other node says nothing. -/
def outlineEntry? (d : Document) (h : Handle) : Except Refusal (Option EntryOutline) := do
  match ← d.role h with
  | .option => return some (.option (← d.optionName h) (← d.optionValue h))
  | .list => return some (.list (← d.listName h) (← d.listValues h))
  | _ => return none

/-- The entries of a section by what they say. -/
def outlineEntries (d : Document) (s : Handle) : Except Refusal (List EntryOutline) := do
  let entries ← d.below s
  let outlines ← entries.mapM d.outlineEntry?
  return outlines.filterMap id

/-- A section by what it says. -/
def outlineSection (d : Document) (s : Handle) : Except Refusal SectionOutline := do
  let entries ← d.outlineEntries s
  let type ← d.sectionType s
  let name ← d.sectionName s
  return { type, name, entries }

/-- **The outline of a document**, section by section. -/
def outline (d : Document) : List (Except Refusal SectionOutline) :=
  d.sections.map d.outlineSection

end Document
end Uci
