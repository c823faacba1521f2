import Uci.Document.Node
import Uci.Text.Escape

/-!
# Refusals

Why a document declines what it is asked for. A refusal names its cause; the words
for it are in one function. Five families of causes differ in what a caller can do
about them: an argument that is wrong by itself, something that is not there, a node
of the wrong kind, an attribute that was never given, and a name that is taken.

* `Misuse`, `Absence`, `Mismatch`, `Attribute` — the causes, by family.
* `Refusal`, `Refusal.message` — all of them, and what they say.
-/

namespace Uci

/-- A text that stands unquoted in a file, and so has to be a bare word. -/
inductive WordUse where
  | packageName
  | sectionType
  | optionName
  | listName
  deriving DecidableEq, Repr

/-- What the word is for, as messages say it. -/
def WordUse.label : WordUse → String
  | packageName => "package name"
  | sectionType => "section type"
  | optionName => "option name"
  | listName => "list name"

/-- **Misuse**: an argument that no document takes. -/
inductive Misuse where
  /-- No node was ever created under this handle. -/
  | unknownHandle (h : Handle)
  /-- The text would not be read back as one word. -/
  | notAWord (use : WordUse) (text : Text)
  | emptySectionName
  /-- Names that begin with `@` belong to unnamed sections. -/
  | reservedSectionName (name : Text)
  | optionWithoutSection
  /-- A path that is empty, or begins or ends with a dot. -/
  | malformedPath (path : Text)
  /-- A path without a dot, where an option is asked for. -/
  | pathWithoutOption (path : Text)
  /-- What the path leads to has nothing that could be printed. -/
  | nothingToPrint (path : Text) (role : Role)
  | notABoolean (text : Text)
  /-- A misuse stated in words of the caller. -/
  | stated (message : Text)
  deriving DecidableEq, Repr

/-- The words for a misuse. -/
def Misuse.message : Misuse → String
  | unknownHandle h => s!"unknown node handle {h.label}"
  | notAWord use text => s!"{use.label} {text.quoted} must be a single unquoted word"
  | emptySectionName => "section name is empty"
  | reservedSectionName name => s!"section name {name.quoted} is reserved for anonymous sections"
  | optionWithoutSection => "an option lookup needs a section"
  | malformedPath path => s!"path {path.quoted} must be <section> or <section>.<option>"
  | pathWithoutOption path => s!"path {path.quoted} must be <section>.<option>"
  | nothingToPrint path role => s!"{path.quoted} names a {role.label}, not a section or option"
  | notABoolean text => s!"{text.quoted} is not a boolean"
  | stated message => message.str

/-- **Absence**: something is not, or no longer, there. -/
inductive Absence where
  /-- The level below the root is missing. -/
  | configuration
  | removed (h : Handle)
  | section (name : Text)
  /-- The section is there, but has neither an option nor a list of that name. -/
  | entry («section» name : Text)
  | atPath (path : Text)
  /-- No section is named by a part of the path in front of a dot. -/
  | sectionOnPath (path : Text)
  /-- No section holds the node. -/
  | sectionAround (h : Handle)
  /-- An absence stated in words of the caller. -/
  | stated (message : Text)
  deriving DecidableEq, Repr

/-- The words for an absence. -/
def Absence.message : Absence → String
  | configuration => "document has no config group"
  | removed h => s!"node {h.label} has been removed"
  | .section name => s!"section {name.str}"
  | entry owner name => s!"{owner.str}.{name.str}"
  | atPath path => s!"path {path.str}"
  | sectionOnPath path => s!"section of {path.str}"
  | sectionAround h => s!"section of node {h.label}"
  | stated message => message.str

/-- **Mismatch**: a node is not of the kind that is needed. -/
inductive Mismatch where
  | kind (h : Handle) (found expected : NodeKind)
  /-- A section was to hang below something that is not the root. -/
  | sectionBelow (h : Handle) (found : NodeKind)
  /-- The table of what may hang below what forbids it. -/
  | childBelow (h : Handle) (found child : NodeKind)
  /-- The two root levels stay. -/
  | removalOfRoot (h : Handle)
  | walk (found : NodeKind)
  | rename (found : Role)
  /-- A mismatch stated in words of the caller. -/
  | stated (message : Text)
  deriving DecidableEq, Repr

/-- The words for a mismatch. -/
def Mismatch.message : Mismatch → String
  | kind _ found expected => s!"expected a {expected.role.label}, found a {found.role.label}"
  | sectionBelow _ found =>
    s!"sections can only be added to the root, not to a {found.role.label}"
  | childBelow _ found child => s!"a {child.role.label} cannot be added to a {found.role.label}"
  | removalOfRoot _ => "the document root cannot be removed"
  | walk found => s!"a {found.role.label} cannot be iterated"
  | rename found => s!"a {found.label} cannot be renamed"
  | stated message => message.str

/-- **Attribute** of a node that may never have been given. -/
inductive Attribute where
  | name
  | type
  | value
  deriving DecidableEq, Repr

/-- The attribute as messages name it. -/
def Attribute.label : Attribute → String
  | name => "name"
  | type => "type"
  | value => "value"

/-- **Refusal**: why a document does not do what it is asked for. -/
inductive Refusal where
  | misuse (cause : Misuse)
  | absence (cause : Absence)
  | mismatch (cause : Mismatch)
  | attributeMissing (missing : Attribute)
  /-- A live child of `parent` has the name already. -/
  | duplicate (name : Text) (parent : Handle)
  /-- A walk has no further node. -/
  | endOfWalk
  deriving DecidableEq, Repr

namespace Refusal

/-- **The words for a refusal.** -/
def message : Refusal → String
  | misuse cause => s!"Invalid argument: {cause.message}"
  | absence cause => s!"Node not found: {cause.message}"
  | mismatch cause => s!"Node type mismatch: {cause.message}"
  | attributeMissing missing => s!"Node attribute missing: {missing.label}"
  | duplicate name _ => s!"Node name already exists: {name.str}"
  | endOfWalk => "Iterator reached the end"

/-- Whether something is not there; a lookup that has another place to look at goes
on after such a refusal, and after no other. -/
def isAbsence : Refusal → Bool
  | absence _ => true
  | _ => false

end Refusal
end Uci
