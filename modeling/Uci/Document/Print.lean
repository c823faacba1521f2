import Uci.Document.Basic
import Uci.Syntax.Quote

/-!
# The written form of a document

A document is written in one way only: the package, if there is one, then every
section with a blank line behind it. Names of sections and all values stand between
quotes, all other names are bare words. A section with a generated name is written
without a name, and a list line by line, or as a bare line if it is empty.

* `Document.print` — the text of a document.
-/

namespace Uci

open Syntax (quote)

namespace Document

/-- A line of the text. -/
def printedLine (t : Text) : Text := t ++ ['\n']

/-- The line of an option. -/
def printedOption (name value : Text) : Text :=
  printedLine ("\toption ".toList ++ name ++ ' ' :: quote value)

/-- The lines of a list, one for every value; an empty list has a line of its own. -/
def printedList (name : Text) : List Text → Text
  | [] => printedLine ("\tlist ".toList ++ name)
  | values => values.flatMap fun v => printedLine ("\tlist ".toList ++ name ++ ' ' :: quote v)

/-- The `config` line of a section. -/
def printedHeader (type name : Text) : Text :=
  if name.head? = some '@' then printedLine ("config ".toList ++ type)
  else printedLine ("config ".toList ++ type ++ ' ' :: quote name)

/-- The lines of an option or a list; of anything else nothing is written. -/
def printEntry (d : Document) (h : Handle) : Text :=
  match (d.arena.get? h).map Node.content with
  | some (.option (some name) (some value)) => printedOption name value
  | some (.list (some name)) => printedList name (d.elements h)
  | _ => []

/-- The lines of a section. -/
def printSection (d : Document) (s : Handle) : Text :=
  match (d.arena.parent? s).bind d.arena.name?, d.arena.name? s with
  | some type, some name =>
    printedHeader type name ++ (d.arena.liveChildren s).flatMap d.printEntry ++ ['\n']
  | _, _ => []

/-- The line of the package, and a blank one. -/
def printedPackage : Option Text → Text
  | none => []
  | some p => printedLine ("package ".toList ++ p) ++ ['\n']

/-- **The text of a document.** -/
def print (d : Document) : Text :=
  printedPackage d.package ++ d.sections.flatMap d.printSection

@[simp] theorem print_empty : print empty = [] := by decide

end Document
end Uci
