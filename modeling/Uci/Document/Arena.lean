import Uci.Document.Node

/-!
# Arena

The nodes of a document in order of creation. A node is named by its place in the
arena and never leaves it: to remove a node is to take its parent away. So a node
is *live* when the way up its parents ends at the root, and the live children of a
node are those of its children that still have it as their parent.

* `Arena.create`, `Arena.link`, `Arena.detach`, `Arena.moveChildren` — changes.
* `Arena.isLive` — whether a node still belongs to the tree.
* `Arena.liveChildren` — the children of a node that were not removed.
-/

namespace Uci

/-- **Arena**: every node that was ever created, by handle. -/
structure Arena where
  nodes : Array Node := #[]
  deriving DecidableEq, Repr

namespace Arena

/-- Number of nodes ever created, removed ones included. -/
def size (a : Arena) : Nat := a.nodes.size

/-- The node of a handle, if the arena has issued the handle. -/
def get? (a : Arena) (h : Handle) : Option Node := a.nodes[h]?

/-- The parent of a node; neither a removed nor an unknown node has one. -/
def parent? (a : Arena) (h : Handle) : Option Handle := (a.get? h).bind Node.parent

/-- The name of a node. -/
def name? (a : Arena) (h : Handle) : Option Text := (a.get? h).bind (·.content.name)

/-- The value of a node. -/
def value? (a : Arena) (h : Handle) : Option Text := (a.get? h).bind (·.content.value)

/-- The counter of a type group. -/
def counter (a : Arena) (h : Handle) : Nat := ((a.get? h).map (·.content.counter)).getD 0

/-- All children a node ever had, removed ones included. -/
def children (a : Arena) (h : Handle) : List Handle := ((a.get? h).map Node.children).getD []

/-! ### Changes -/

/-- Changes one node and leaves all others as they are. -/
def modify (a : Arena) (h : Handle) (f : Node → Node) : Arena := ⟨a.nodes.modify h f⟩

/-- Changes the content of one node. -/
def modifyContent (a : Arena) (h : Handle) (f : Content → Content) : Arena :=
  a.modify h fun n => { n with content := f n.content }

/-- Adds a node that hangs nowhere yet. Its handle is the size of the arena before. -/
def create (a : Arena) (c : Content) : Arena := ⟨a.nodes.push { content := c }⟩

/-- Hangs `child` below `parent`, as its last child. -/
def link (a : Arena) (parent child : Handle) : Arena :=
  (a.modify parent fun n => { n with children := n.children ++ [child] }).modify child
    fun n => { n with parent := some parent }

/-- Takes the parent of a node away. -/
def detach (a : Arena) (h : Handle) : Arena := a.modify h fun n => { n with parent := none }

/-- Gives a node that hangs below `source` to `target`; any other stays where it is. -/
def adopt (source target : Handle) (a : Arena) (child : Handle) : Arena :=
  a.modify child fun n =>
    if n.parent = some source then { n with parent := some target } else n

/-- **Moves all children** of `source` behind those of `target`. Removed children go
along and stay removed. -/
def moveChildren (a : Arena) (source target : Handle) : Arena :=
  let moved := a.children source
  let emptied := a.modify source fun n => { n with children := [] }
  (moved.foldl (adopt source target) emptied).modify target
    fun n => { n with children := n.children ++ moved }

/-! ### Views -/

/-- Whether the way up from a node, of at most `steps` nodes, ends at a root. -/
def reachesRoot (a : Arena) : Nat → Handle → Bool
  | 0, _ => false
  | steps + 1, h =>
    match a.get? h with
    | none => false
    | some n => n.kind == .root || n.parent.any (a.reachesRoot steps)

/-- **Live**: the node belongs to the tree. A way up that is longer than the arena
has met some node twice and ends nowhere. -/
def isLive (a : Arena) (h : Handle) : Bool := a.reachesRoot a.size h

/-- **Live children** of a node, in the order in which they came to it. -/
def liveChildren (a : Arena) (h : Handle) : List Handle :=
  (a.children h).filter fun child => a.parent? child = some h

/-- The first live child of `h` that has the name `n`. -/
def childNamed? (a : Arena) (h : Handle) (n : Text) : Option Handle :=
  (a.liveChildren h).find? fun child => a.name? child = some n

/-! ### What a change does to the nodes -/

@[simp] theorem size_modify (a : Arena) (h : Handle) (f : Node → Node) :
    (a.modify h f).size = a.size := by simp [modify, size]

@[simp] theorem size_create (a : Arena) (c : Content) : (a.create c).size = a.size + 1 := by
  simp [create, size]

@[simp] theorem size_link (a : Arena) (p c : Handle) : (a.link p c).size = a.size := by
  simp [link]

@[simp] theorem size_detach (a : Arena) (h : Handle) : (a.detach h).size = a.size := by
  simp [detach]

theorem get?_modify (a : Arena) (h : Handle) (f : Node → Node) (k : Handle) :
    (a.modify h f).get? k = if h = k then (a.get? k).map f else a.get? k := by
  simp [modify, get?, Array.getElem?_modify]

theorem get?_create (a : Arena) (c : Content) (k : Handle) :
    (a.create c).get? k = if k = a.size then some { content := c } else a.get? k := by
  simp only [create, get?, size, Array.getElem?_push]
  rfl

/-- A handle is known exactly if it is below the size. -/
theorem get?_isSome_iff (a : Arena) (h : Handle) : (a.get? h).isSome ↔ h < a.size := by
  simp [get?, size]

theorem mem_liveChildren {a : Arena} {h child : Handle} :
    child ∈ a.liveChildren h ↔ child ∈ a.children h ∧ a.parent? child = some h := by
  simp [liveChildren]

end Arena
end Uci
