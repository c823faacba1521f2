import Uci.Text.Basic

/-!
# Nodes

A document is a tree of nodes in six levels: the root, the configuration below
it, one group per section type, the sections of that type, the options and lists
of a section, and the elements of a list. Which kind of node may hang below which
is said here, in one table, and nowhere else.

* `Handle` — the number of a node, by which callers name it.
* `NodeKind`, `NodeKind.mayHold` — the kinds and the table.
* `Role` — a kind as callers see it: the two root levels are one role, and so are
  a type group and a section.
* `Content`, `Node` — what a node carries, and its place in the tree.
-/

namespace Uci

/-- **Handle** of a node: the number of nodes that were created before it. It keeps
its meaning after the node was removed. -/
abbrev Handle := Nat

/-- The handle as messages show it. -/
def Handle.label (h : Handle) : String := s!"#{h}"

/-- **Role**: a kind of node as callers see it. -/
inductive Role where
  | root
  | section
  | option
  | list
  | element
  deriving DecidableEq, Repr

namespace Role

/-- The role as messages name it. -/
def label : Role → String
  | root => "root"
  | .section => "section"
  | option => "option"
  | list => "list"
  | element => "list element"

end Role

/-- **Kind** of a node. -/
inductive NodeKind where
  /-- The top of a document. -/
  | root
  /-- The configuration, right below the root. -/
  | config
  /-- The group of all sections of one type. -/
  | sectionType
  /-- A section. -/
  | section
  | option
  | list
  /-- One value of a list. -/
  | element
  deriving DecidableEq, Repr

namespace NodeKind

/-- Every kind, from the top of a document downwards. -/
def all : List NodeKind := [root, config, sectionType, .section, option, list, element]

/-- The kind as the log names it. -/
def label : NodeKind → String
  | root => "Root"
  | config => "ConfigGroup"
  | sectionType => "SectionType"
  | .section => "SectionName"
  | option => "Option"
  | list => "List"
  | element => "ListItem"

/-- The role in which callers see a node of this kind. -/
def role : NodeKind → Role
  | root | config => .root
  | sectionType | .section => .section
  | option => .option
  | list => .list
  | element => .element

/-- **The table of what may hang below what.** -/
def mayHold : NodeKind → NodeKind → Bool
  | root, config => true
  | config, sectionType => true
  | sectionType, .section => true
  | sectionType, option | .section, option => true
  | sectionType, list | .section, list => true
  | list, element => true
  | _, _ => false

theorem mem_all (k : NodeKind) : k ∈ all := by cases k <;> decide

/-- No kind of node hangs below itself, so every chain of parents is short. -/
theorem mayHold_irrefl (k : NodeKind) : k.mayHold k = false := by cases k <;> rfl

end NodeKind

/-- **Content** of a node. A name or value that was never given is told apart from
an empty one. -/
inductive Content where
  | root
  | config
  /-- A type group, with the number that its next unnamed section takes. -/
  | sectionType (name : Option Text) (counter : Nat)
  | section (name : Option Text)
  | option (name value : Option Text)
  | list (name : Option Text)
  | element (value : Option Text)
  deriving DecidableEq, Repr

namespace Content

/-- The kind of a node with this content. -/
def kind : Content → NodeKind
  | root => .root
  | config => .config
  | sectionType _ _ => .sectionType
  | .section _ => .section
  | option _ _ => .option
  | list _ => .list
  | element _ => .element

/-- The name, by which a node is told from its siblings. -/
def name : Content → Option Text
  | sectionType n _ | .section n | option n _ | list n => n
  | root | config | element _ => none

/-- The value of an option or of an element of a list. -/
def value : Content → Option Text
  | option _ v | element v => v
  | _ => none

/-- The number that the next unnamed section of a type group takes. -/
def counter : Content → Nat
  | sectionType _ n => n
  | _ => 0

/-- The same content under another name; what has no name keeps none. -/
def withName (n : Text) : Content → Content
  | sectionType _ k => sectionType (some n) k
  | .section _ => .section (some n)
  | option _ v => option (some n) v
  | list _ => list (some n)
  | root => root
  | config => config
  | element v => element v

/-- The same content with another value; what has no value keeps none. -/
def withValue (v : Text) : Content → Content
  | option n _ => option n (some v)
  | element _ => element (some v)
  | c => c

/-- The same content with another counter, which only a type group has. -/
def withCounter (k : Nat) : Content → Content
  | sectionType n _ => sectionType n k
  | c => c

@[simp] theorem kind_withName (n : Text) (c : Content) : (c.withName n).kind = c.kind := by
  cases c <;> rfl

@[simp] theorem kind_withValue (v : Text) (c : Content) : (c.withValue v).kind = c.kind := by
  cases c <;> rfl

@[simp] theorem kind_withCounter (k : Nat) (c : Content) :
    (c.withCounter k).kind = c.kind := by
  cases c <;> rfl

end Content

/-- **Node**: its content and its place. A removed node has lost its parent, but
stays among the children of the node it hung below. -/
structure Node where
  content : Content
  parent : Option Handle := none
  children : List Handle := []
  deriving DecidableEq, Repr

/-- The kind of a node. -/
def Node.kind (n : Node) : NodeKind := n.content.kind

end Uci
