import Uci.Command.Change
import Uci.Document.Replay
import Uci.Log.Record

/-!
# What the library tells about its work

The records that go to the log while a document is read, looked up and changed. They
are told from the documents before and after: a refusal determines the record of its
cause, a lookup the refusals it passes over, and a statement the section it opens.

* `Refusal.note?` — the record of a refusal.
* `Document.tellQuery`, `Document.tellQueryEntry` — the records of a lookup.
* `Document.tellChange` — the records of a change.
* `Document.tellParse` — the records of a text being read.
-/

namespace Uci

open Syntax (Item)
open Log (Record)

/-- The record of a misuse. -/
def Misuse.note? : Misuse → Option Record
  | malformedPath path => some ⟨.debug, .lookup, s!"malformed path {path.quoted}"⟩
  | notABoolean text => some ⟨.debug, .values, s!"not a boolean: {text.quoted}"⟩
  | _ => none

/-- The record of an absence. -/
def Absence.note? : Absence → Option Record
  | removed h => some ⟨.debug, .document, s!"node {h.label} has been removed"⟩
  | .section name => some ⟨.debug, .document, s!"no live section named {name.str}"⟩
  | entry owner name =>
    some ⟨.debug, .document, s!"no live option or list {name.str} in {owner.str}"⟩
  | atPath path => some ⟨.debug, .lookup, s!"nothing at {path.quoted}"⟩
  | sectionOnPath path => some ⟨.debug, .lookup, s!"no section prefix in {path.quoted}"⟩
  | _ => none

/-- The record of a mismatch. -/
def Mismatch.note? : Mismatch → Option Record
  | kind h found expected =>
    some ⟨.debug, .document, s!"node {h.label} is a {found.label}, expected {expected.label}"⟩
  | sectionBelow h found =>
    some ⟨.debug, .document, s!"cannot add a section under {found.label} {h.label}"⟩
  | childBelow h found child =>
    some ⟨.debug, .document, s!"{child.label} cannot be a child of {found.label} {h.label}"⟩
  | removalOfRoot h => some ⟨.debug, .document, s!"refusing to remove document root {h.label}"⟩
  | walk found => some ⟨.debug, .walk, s!"cannot iterate a {found.label}"⟩
  | _ => none

/-- **The record of a refusal**, if its cause is one that is told. -/
def Refusal.note? : Refusal → Option Record
  | misuse cause => cause.note?
  | absence cause => cause.note?
  | mismatch cause => cause.note?
  | duplicate name parent =>
    some ⟨.debug, .document, s!"name {name.str} already used under {parent.label}"⟩
  | _ => none

/-- The refusals that `firstPresent` passes over on its way. -/
def passedOver {α β : Type} (look : β → Except Refusal α) : List β → List Refusal
  | [] => []
  | k :: ks =>
    match look k with
    | .ok _ => []
    | .error e => if e.isAbsence then e :: passedOver look ks else []

/-- The record of the refusal in which something ended, if it did. -/
def noteOfError {α : Type} : Except Refusal α → List Record
  | .ok _ => []
  | .error e => e.note?.toList

namespace Document

/-! ### Lookups -/

/-- The records of what `query` passes over. -/
def tellReadings (d : Document) (path : Text) : List Record :=
  if path.isEmpty ∨ !(checkPath path).isOk then []
  else (passedOver (fun (s, e) => d.find (some s) e) (readings path)).filterMap Refusal.note?

/-- The records of what `queryEntry` passes over. -/
def tellSplits (d : Document) (path : Text) : List Record :=
  if !(checkPath path).isOk then []
  else (passedOver (fun (s, _) => d.find (some s) none) (splits path)).filterMap Refusal.note?

/-- **The records of a lookup** at a path. -/
def tellQuery (d : Document) (path : Text) : List Record :=
  d.tellReadings path ++ noteOfError (d.query path)

/-- **The records of a lookup** of an entry at a path. -/
def tellQueryEntry (d : Document) (path : Text) : List Record :=
  d.tellSplits path ++ noteOfError (d.queryEntry path)

/-! ### Changes -/

/-- The records of a section that was added, told from the document behind it. -/
def tellAdded (d : Document) (s : Handle) (type : Text) (name : Option Text) : List Record :=
  let naming : List Record :=
    match name with
    | some _ => []
    | none =>
      [⟨.trace, .naming, s!"section {s.label} named {((d.arena.name? s).getD []).str}"⟩]
  naming ++ [⟨.trace, .document, s!"added section {s.label} of type {type.str}"⟩]

/-- The records of adding a section. -/
def tellAddSection (d : Document) (type : Text) (name : Option Text) : List Record :=
  match (addSection root type name).run d with
  | (.ok s, after) => after.tellAdded s type name
  | (.error e, _) => e.note?.toList

/-- The record of a list that makes way for an option. -/
def tellReplaced (d : Document) (path : Text) : List Record :=
  match d.queryEntry path with
  | .error _ => []
  | .ok (s, name) =>
    match d.entryWithRole? s name with
    | .ok (some (_, .option)) => []
    | .ok (some _) => [⟨.info, .commands, s!"replacing list {path.str} with an option"⟩]
    | _ => []

/-- What is told while a change looks for what it is about. -/
def tellSearch (d : Document) : Change → List Record
  | .set path _ => d.tellSplits path ++ d.tellReplaced path
  | .append path _ => d.tellSplits path
  | .delete path | .rename path _ => d.tellReadings path
  | .add _ _ => []

/-- **The records of a change.** -/
def tellChange (d : Document) : Change → List Record
  | .add type name => d.tellAddSection type name
  | c => d.tellSearch c ++ noteOfError (c.edit.run d).1

/-! ### Reading a text -/

/-- What is told about a statement that is taken: which section it opens. -/
def tellItem (d : Document) : Item → List Record
  | .package _ => []
  | .section body =>
    match body.type with
    | none => []
    | some type =>
      match d.sectionToReopen? type.text body.name with
      | some s => [⟨.trace, .replay, s!"reopening section {type.text.str} {s.label}"⟩]
      | none =>
        match (addSection root type.text (body.name.map (·.text))).run d with
        | (.ok s, after) => after.tellAdded s type.text (body.name.map (·.text))
        | (.error _, _) => []

/-- The records of a statement that is not taken. -/
def tellRejection : ParseCause → List Record
  | .refused e => e.note?.toList ++ [⟨.debug, .replay, s!"statement rejected: {e.message}"⟩]
  | _ => []

/-- The records of statements that are replayed on a document. -/
def tellReplay (d : Document) : List Item → List Record
  | [] => []
  | i :: items =>
    d.tellItem i ++
      match d.replayItem i with
      | .ok d => tellReplay d items
      | .error e => tellRejection e.cause

/-- **The records of a text being read.** -/
def tellParse (source : Text) : List Record :=
  let parsed := Syntax.parse source
  match parsed.errors with
  | e :: _ => [⟨.debug, .replay, s!"syntax error: {e.fault.message}"⟩]
  | [] => empty.tellReplay parsed.items

end Document
end Uci
