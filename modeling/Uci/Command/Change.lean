import Uci.Document.Lookup
import Uci.Document.Naming
import Uci.Document.Walk

/-!
# Changes by path

The changes that a person makes from the command line. Each names what it changes by
a path and answers the text to print, which only the addition of a section has.

* `Change`, `Change.edit` — the changes, and the edit that each stands for.
* `Document.entryIn?` — the entry of a section that a change is about.
-/

namespace Uci

namespace Document

/-- The name of an option or a list; any other node has none that counts. -/
def entryName (d : Document) (h : Handle) : Except Refusal (Option Text) := do
  match ← d.role h with
  | .option => return some (← d.optionName h)
  | .list => return some (← d.listName h)
  | _ => return none

/-- The option or list of a name in a section. -/
def entryIn? (d : Document) (s : Handle) (name : Text) : Except Refusal (Option Handle) := do
  let entries ← d.below s
  entries.findM? fun h => return (← d.entryName h) = some name

/-- The option or list of a name in a section, with its role. -/
def entryWithRole? (d : Document) (s : Handle) (name : Text) :
    Except Refusal (Option (Handle × Role)) := do
  match ← d.entryIn? s name with
  | some h => return some (h, ← d.role h)
  | none => return none

/-- Gives an option its value. An option that is missing is added; a list of its name
makes way for it. -/
def setByPath (path value : Text) : Edit Unit := do
  let (s, name) ← Edit.read (·.queryEntry path)
  match ← Edit.read (·.entryWithRole? s name) with
  | some (h, .option) => setOptionValue h value
  | some (h, _) => do
    remove h
    let _ ← addOption s name value
  | none =>
    let _ ← addOption s name value

/-- Adds a section, and answers the name it got. -/
def addAndName (type : Text) (name : Option Text) : Edit Text := do
  let s ← addSection root type name
  Edit.read (·.sectionName s)

/-- Adds a value to a list, which is added itself if it is missing. -/
def appendByPath (path value : Text) : Edit Unit := do
  let (s, name) ← Edit.read (·.queryEntry path)
  let list ← match ← Edit.read (·.entryIn? s name) with
    | some h => pure h
    | none => addList s name
  let _ ← addElement list value

/-- Removes what a path leads to. -/
def removeByPath (path : Text) : Edit Unit := do
  let h ← Edit.read (·.query path)
  remove h

/-- Gives another name to what a path leads to. -/
def renameByPath (path name : Text) : Edit Unit := do
  let h ← Edit.read (·.query path)
  match ← Edit.read (·.role h) with
  | .section => setSectionName h name
  | .option => setOptionName h name
  | .list => setListName h name
  | role => Edit.read fun _ => .error (.mismatch (.rename role))

end Document

/-- **Change** of a document, as a person asks for it. -/
inductive Change where
  | set (path value : Text)
  | add (type : Text) (name : Option Text)
  | append (path value : Text)
  | delete (path : Text)
  | rename (path name : Text)
  deriving DecidableEq, Repr

namespace Change

/-- **The edit that a change stands for.** It answers the text to print. -/
def edit : Change → Edit Text
  | set path value => do
    Document.setByPath path value
    return []
  | add type name => do
    let given ← Document.addAndName type name
    return given ++ ['\n']
  | append path value => do
    Document.appendByPath path value
    return []
  | delete path => do
    Document.removeByPath path
    return []
  | rename path name => do
    Document.renameByPath path name
    return []

end Change
end Uci
