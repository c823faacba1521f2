import Uci.Document.Basic

/-!
# Walks

A walk visits the live nodes below a node one by one: below the root every section,
below a section or a list its children. It keeps what it has still to look at, and
passes over what was removed.

* `Walk`, `Document.walk` — walks, and the one that begins at a node.
* `Walk.next` — the next node, if there is one, and the walk behind it.
* `Walk.remaining` — all nodes that a walk has still to visit; `Walk.next` takes
  the first of them away.
-/

namespace Uci

/-- **Walk** in progress. -/
inductive Walk where
  /-- Over the sections: the groups to come, and the rest of the group that is being
  visited. -/
  | sections (config : Handle) (groups : List Handle) (current : Option (Handle × List Handle))
  /-- Over the children of one node: those to come. -/
  | children (parent : Handle) (rest : List Handle)
  deriving DecidableEq, Repr

/-- Whether the node still hangs below `parent`. -/
def Arena.hangs (a : Arena) (parent h : Handle) : Bool := a.parent? h = some parent

namespace Walk

/-- Passes over the nodes that no longer hang below `parent`, and takes the first one
that does. -/
def take (a : Arena) (parent : Handle) : List Handle → Option (Handle × List Handle)
  | [] => none
  | h :: rest => if a.hangs parent h then some (h, rest) else take a parent rest

/-- The next section of the groups to come. -/
def nextInGroups (a : Arena) (config : Handle) : List Handle → Option Handle × Walk
  | [] => (none, sections config [] none)
  | g :: groups =>
    if a.hangs config g then
      match take a g (a.children g) with
      | some (s, rest) => (some s, sections config groups (some (g, rest)))
      | none => nextInGroups a config groups
    else nextInGroups a config groups

/-- **The next node**, and the walk behind it. At the end there is none, however
often one asks. -/
def next (a : Arena) : Walk → Option Handle × Walk
  | children parent rest =>
    match take a parent rest with
    | some (h, rest) => (some h, children parent rest)
    | none => (none, children parent [])
  | sections config groups current =>
    match current.bind fun (g, rest) => (take a g rest).map ((g, ·)) with
    | some (g, s, rest) => (some s, sections config groups (some (g, rest)))
    | none => nextInGroups a config groups

/-- **All nodes that are still to come.** -/
def remaining (a : Arena) : Walk → List Handle
  | children parent rest => rest.filter (a.hangs parent)
  | sections config groups current =>
    (current.elim [] fun (g, rest) => rest.filter (a.hangs g)) ++
      (groups.filter (a.hangs config)).flatMap a.liveChildren

/-! ### Taking one node takes the first that remains -/

theorem take_eq (a : Arena) (parent : Handle) (l : List Handle) :
    match take a parent l with
    | some (h, rest) => l.filter (a.hangs parent) = h :: rest.filter (a.hangs parent)
    | none => l.filter (a.hangs parent) = [] := by
  induction l with
  | nil => simp [take]
  | cons h l ih =>
    by_cases hh : a.hangs parent h
    · simp [take, hh]
    · simp only [take, hh]
      simpa [hh] using ih

theorem filter_hangs_children (a : Arena) (h : Handle) :
    (a.children h).filter (a.hangs h) = a.liveChildren h := by
  unfold Arena.liveChildren Arena.hangs
  rfl

theorem nextInGroups_eq (a : Arena) (config : Handle) (groups : List Handle) :
    (groups.filter (a.hangs config)).flatMap a.liveChildren =
      (nextInGroups a config groups).1.toList ++
        remaining a (nextInGroups a config groups).2 := by
  induction groups with
  | nil => simp [nextInGroups, remaining]
  | cons g groups ih =>
    by_cases hg : a.hangs config g
    · have ht := take_eq a g (a.children g)
      rw [filter_hangs_children] at ht
      simp only [nextInGroups, hg, if_true, List.filter_cons_of_pos, List.flatMap_cons]
      split at ht
      · simp [ht, remaining]
      · simp [ht, ih]
    · simp only [nextInGroups, hg, List.filter_cons]
      simpa using ih

/-- **The next node is the first one that remains**, and the others remain behind
it. -/
theorem remaining_eq (a : Arena) (w : Walk) :
    w.remaining a = (w.next a).1.toList ++ (w.next a).2.remaining a := by
  cases w with
  | children parent rest =>
    have ht := take_eq a parent rest
    simp only [remaining, next]
    split at ht <;> simp_all
  | sections config groups current =>
    rcases current with - | ⟨g, rest⟩
    · simpa [next, remaining] using nextInGroups_eq a config groups
    · have ht := take_eq a g rest
      simp only [remaining, next]
      split at ht
      · simp [*]
      · simpa [*, remaining] using nextInGroups_eq a config groups

end Walk

namespace Document

/-- **The walk below a node**: over the sections from the root or the configuration,
over the children from a section or a list. -/
def walk (d : Document) (h : Handle) : Except Refusal Walk := do
  let n ← d.live h
  match n.kind with
  | .root =>
    let config ← d.configuration
    return .sections config (d.arena.children config) none
  | .config => return .sections h (d.arena.children h) none
  | .section | .list => return .children h (d.arena.children h)
  | k => .error (.mismatch (.walk k))

/-- All nodes that the walk below a node visits. -/
def below (d : Document) (h : Handle) : Except Refusal (List Handle) := do
  let w ← d.walk h
  return w.remaining d.arena

/-- The first `count` answers of the walk below a node. -/
def nexts (d : Document) (h : Handle) (count : Nat) :
    Except Refusal (List (Except Refusal Handle)) := do
  let w ← d.walk h
  return go count w
where
  go : Nat → Walk → List (Except Refusal Handle)
    | 0, _ => []
    | n + 1, w => (w.next d.arena).1.elim (.error .endOfWalk) .ok :: go n (w.next d.arena).2

end Document
end Uci
