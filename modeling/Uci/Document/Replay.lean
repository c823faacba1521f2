import Uci.Document.Naming
import Uci.Syntax.Statement

/-!
# From text to document

The statements of a text are replayed as edits on an empty document, so that a
document that was read obeys the same rules as one that was built. A header whose
type and name were seen before opens that section again, a repeated option takes the
new value, and the lines of a list add up. The first fault in the text, or else the
first statement that the document refuses, ends the reading.

* `ParseError` — why a text is no document, and where.
* `Document.replayItem` — one statement, on a document.
* `Document.parse` — the document that a text describes.
-/

namespace Uci

open Syntax (Value Entry Section Item Fault)

/-- Why a text is no document. -/
inductive ParseCause where
  /-- The text is not made of statements. -/
  | fault (fault : Fault)
  /-- The document refuses what the statement asks for. -/
  | refused (refusal : Refusal)
  /-- An `option` line for the name of a list. -/
  | isList (name : Text)
  /-- A `list` line for the name of an option. -/
  | isOption (name : Text)
  deriving DecidableEq, Repr

/-- The words for a cause. -/
def ParseCause.message : ParseCause → String
  | fault f => f.message
  | refused refusal => refusal.message
  | isList name => s!"option {name.str} is already a list"
  | isOption name => s!"list {name.str} is already an option"

/-- **Parse error**: a cause, and the place in the text. -/
structure ParseError where
  position : Position
  cause : ParseCause
  deriving DecidableEq, Repr

/-- The place and the words for the cause. -/
def ParseError.message (e : ParseError) : String :=
  s!"line {e.position.line}, column {e.position.column}: {e.cause.message}"

/-- **Rejection** of a statement: the cause, and the byte at which the value begins
that is to blame. -/
structure Rejection where
  cause : ParseCause
  offset : Nat
  deriving DecidableEq, Repr

namespace Document

/-- Makes an edit; if it is refused, the value `v` is to blame. -/
def accept {α : Type} (v : Value) (e : Edit α) (d : Document) : Except Rejection (α × Document) :=
  match e.run d with
  | (.ok a, d) => .ok (a, d)
  | (.error r, _) => .error ⟨.refused r, v.offset⟩

/-- The section of a type that has the name already. -/
def sectionToReopen? (d : Document) (type : Text) (name : Option Value) : Option Handle := do
  let name ← name
  let config ← d.configuration.toOption
  let group ← d.groupNamed? config type
  d.arena.childNamed? group name.text

/-- Opens the section of a header: the one of that type and name if there is one, and
a new one otherwise. -/
def openSection (type : Value) (name : Option Value) (d : Document) :
    Except Rejection (Handle × Document) :=
  match d.sectionToReopen? type.text name with
  | some s => .ok (s, d)
  | none => accept (name.getD type) (addSection root type.text (name.map Value.text)) d

/-- An entry of a section by its name, with its kind. -/
def entryOf? (d : Document) (s : Handle) (name : Text) : Option (Handle × NodeKind) := do
  let h ← d.arena.childNamed? s name
  let n ← d.arena.get? h
  return (h, n.kind)

/-- An `option` line gives the option its value. -/
def replayOption (s : Handle) (name value : Value) (d : Document) : Except Rejection Document :=
  match d.entryOf? s name.text with
  | some (h, .option) => (accept name (setOptionValue h value.text) d).map Prod.snd
  | some _ => .error ⟨.isList name.text, name.offset⟩
  | none => (accept name (addOption s name.text value.text) d).map Prod.snd

/-- The list that a `list` line is about, which may be new. -/
def openList (s : Handle) (name : Value) (d : Document) : Except Rejection (Handle × Document) :=
  match d.entryOf? s name.text with
  | some (h, .list) => .ok (h, d)
  | some _ => .error ⟨.isOption name.text, name.offset⟩
  | none => accept name (addList s name.text) d

/-- A `list` line adds its value, if it has one, to the list. -/
def replayList (s : Handle) (name : Value) (value : Option Value) (d : Document) :
    Except Rejection Document := do
  let (h, d) ← openList s name d
  match value with
  | some v => (accept v (addElement h v.text) d).map Prod.snd
  | none => return d

/-- One line of the section `s`; a line that lacks a piece says nothing. -/
def replayEntry (s : Handle) (d : Document) : Entry → Except Rejection Document
  | .option (some name) (some value) => replayOption s name value d
  | .list (some name) value => replayList s name value d
  | _ => .ok d

/-- A section: its header, then its lines. -/
def replaySection (d : Document) (body : Section) : Except Rejection Document :=
  match body.type with
  | none => .ok d
  | some type => do
    let (s, d) ← openSection type body.name d
    body.entries.foldlM (replayEntry s) d

/-- **One statement**, on a document. -/
def replayItem (d : Document) : Item → Except Rejection Document
  | .package (some name) => (accept name (setPackage (some name.text)) d).map Prod.snd
  | .package none => .ok d
  | .section body => replaySection d body

/-- All statements, one after the other, on an empty document. -/
def replay (items : List Item) : Except Rejection Document := items.foldlM replayItem empty

/-- **The document that a text describes.** -/
def parse (source : Text) : Except ParseError Document :=
  let parsed := Syntax.parse source
  match parsed.errors with
  | e :: _ => .error ⟨e.position source, .fault e.fault⟩
  | [] =>
    match replay parsed.items with
    | .ok d => .ok d
    | .error r => .error ⟨.ofOffset source r.offset, r.cause⟩

end Document
end Uci
