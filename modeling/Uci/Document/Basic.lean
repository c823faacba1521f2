import Uci.Document.Arena
import Uci.Document.Refusal
import Uci.Syntax.Token

/-!
# Documents

A document is an arena with a root and a configuration below it, and the package
the file belongs to. This module holds what can be read from a document. Every
reading checks, in this order, that the handle is known, that its node is live,
that the node is of the right kind, and that the attribute was ever given.

* `Document`, `Document.empty` — documents, and the one to begin with.
* `Document.live`, `Document.liveOf` — the node of a handle, with all checks.
* `Document.sections` — the sections in their order.
* `Document.sectionType`, `Document.optionValue`, … — attributes.
* `Document.checkWord`, `Document.checkUnused`, … — the checks that edits make.
-/

namespace Uci

/-- **Document**: one configuration, with the nodes it once had. -/
structure Document where
  arena : Arena
  package : Option Text := none
  deriving DecidableEq, Repr

namespace Document

/-- The handle of the root. -/
def root : Handle := 0

/-- The document without any section: a root with a configuration below it. -/
def empty : Document := ⟨((({} : Arena).create .root).create .config).link 0 1, none⟩

instance : EmptyCollection Document := ⟨empty⟩

instance : Inhabited Document := ⟨empty⟩

/-- Number of nodes ever created, removed ones included. -/
def allocated (d : Document) : Nat := d.arena.size

/-- Whether a node still belongs to the tree. -/
def isLive (d : Document) (h : Handle) : Bool := d.arena.isLive h

/-! ### Nodes -/

/-- The node of a handle, live or removed. -/
def node (d : Document) (h : Handle) : Except Refusal Node :=
  match d.arena.get? h with
  | some n => .ok n
  | none => .error (.misuse (.unknownHandle h))

/-- The live node of a handle. -/
def live (d : Document) (h : Handle) : Except Refusal Node := do
  let n ← d.node h
  if d.isLive h then .ok n else .error (.absence (.removed h))

/-- The live node of a handle, if it is of kind `k`. -/
def liveOf (d : Document) (h : Handle) (k : NodeKind) : Except Refusal Node := do
  let n ← d.live h
  if n.kind = k then .ok n else .error (.mismatch (.kind h n.kind k))

/-- The role of a live node. -/
def role (d : Document) (h : Handle) : Except Refusal Role := do
  let n ← d.live h
  return n.kind.role

/-- The parent of a live node of kind `k`. -/
def parentOf (d : Document) (h : Handle) (k : NodeKind) : Except Refusal Handle := do
  let n ← d.liveOf h k
  match n.parent with
  | some p => .ok p
  | none => .error (.absence (.removed h))

/-- The configuration below the root, which holds every type group. -/
def configuration (d : Document) : Except Refusal Handle :=
  match (d.arena.liveChildren root).find? fun h => (d.arena.get? h).any (·.kind == .config) with
  | some h => .ok h
  | none => .error (.absence .configuration)

/-- The type groups in their order. -/
def groups (d : Document) : List Handle :=
  match d.configuration with
  | .ok config => d.arena.liveChildren config
  | .error _ => []

/-- **The sections of a document**, group after group. -/
def sections (d : Document) : List Handle := d.groups.flatMap d.arena.liveChildren

/-- The group that a live section belongs to. -/
def groupOf (d : Document) (s : Handle) : Except Refusal Handle := d.parentOf s .section

/-! ### Attributes -/

/-- What was given for an attribute. -/
def given (a : Attribute) : Option Text → Except Refusal Text
  | some t => .ok t
  | none => .error (.attributeMissing a)

/-- The type of a section, which its group carries. -/
def sectionType (d : Document) (s : Handle) : Except Refusal Text := do
  let group ← d.groupOf s
  let n ← d.live group
  given .type n.content.name

/-- The name of a section, a generated one if nobody gave it another. -/
def sectionName (d : Document) (s : Handle) : Except Refusal Text := do
  let n ← d.liveOf s .section
  given .name n.content.name

/-- The name of an option. -/
def optionName (d : Document) (h : Handle) : Except Refusal Text := do
  let n ← d.liveOf h .option
  given .name n.content.name

/-- The value of an option. -/
def optionValue (d : Document) (h : Handle) : Except Refusal Text := do
  let n ← d.liveOf h .option
  given .value n.content.value

/-- The name of a list. -/
def listName (d : Document) (h : Handle) : Except Refusal Text := do
  let n ← d.liveOf h .list
  given .name n.content.name

/-- The values of the live elements of a node. -/
def elements (d : Document) (h : Handle) : List Text :=
  (d.arena.liveChildren h).filterMap d.arena.value?

/-- The values of a list in their order. -/
def listValues (d : Document) (h : Handle) : Except Refusal (List Text) := do
  let _ ← d.liveOf h .list
  return d.elements h

/-- The value of an element of a list. -/
def elementValue (d : Document) (h : Handle) : Except Refusal Text := do
  let n ← d.liveOf h .element
  given .value n.content.value

/-! ### Checks -/

/-- A text that is written unquoted has to be read back as one word. -/
def checkWord (use : WordUse) (t : Text) : Except Refusal Unit :=
  if Syntax.isWord t then .ok () else .error (.misuse (.notAWord use t))

/-- The name of a section is written between quotes, so it can be any text but the
empty one and those that begin as generated names do. -/
def checkSectionName (t : Text) : Except Refusal Unit :=
  if t.isEmpty then .error (.misuse .emptySectionName)
  else if t.head? = some '@' then .error (.misuse (.reservedSectionName t))
  else .ok ()

/-- No live child of `parent`, apart from `self`, has the name already. -/
def checkUnused (d : Document) (parent : Handle) (name : Text) (self : Option Handle) :
    Except Refusal Unit :=
  if (d.arena.liveChildren parent).any fun h => some h ≠ self && d.arena.name? h = some name then
    .error (.duplicate name parent)
  else .ok ()

/-- The node is live, and the table lets a `child` hang below it. -/
def checkHolds (d : Document) (parent : Handle) (child : NodeKind) : Except Refusal Unit := do
  let n ← d.live parent
  if n.kind.mayHold child then .ok ()
  else .error (.mismatch (.childBelow parent n.kind child))

/-- The node under which a section is added: the configuration, which may also be
named by the root above it. -/
def sectionParent (d : Document) (h : Handle) : Except Refusal Handle := do
  let n ← d.live h
  match n.kind with
  | .root => d.configuration
  | .config => .ok h
  | k => .error (.mismatch (.sectionBelow h k))

end Document
end Uci
