import Uci.Syntax.Tree

/-!
# Event logs

A tree is described by a flat log of events: a node starts, a token is taken, a
node finishes. A node that turns out to stand inside another one only after it
has been read says so by the index of that other start, its *outer* one, which
may stand later in the log. Replaying the log makes the tree.

* `Event` — the events. A `placeholder` says nothing.
* `Builder` — a tree in the making: finished trees and the nodes still open.
* `takeOuter` — the chain of outer starts above an event, each taken out of the
  log on the way, so that no event is used twice and cycles end.
* `Tree.ofEvents?` — the replay.
-/

namespace Uci
namespace Syntax

/-- **Event** of a log. -/
inductive Event where
  /-- A node starts. `outer` is the index of a start that is to open around it. -/
  | start (kind : Kind) (outer : Option Nat)
  /-- The next token of the source is taken, and kept as `kind`. -/
  | token (kind : Kind)
  /-- The innermost open node ends. -/
  | finish
  /-- Says nothing: a start that was never decided, or an event already used. -/
  | placeholder
  deriving DecidableEq, Repr, Inhabited

/-- Is the event the start of a node? -/
def Event.isStart : Event → Bool
  | .start _ _ => true
  | _ => false

/-- **A tree in the making.** All lists have the latest element first. -/
structure Builder where
  /-- Trees that stand in no open node. -/
  done : List Tree := []
  /-- The open nodes with the trees already in them, the innermost first. -/
  frames : List (Kind × List Tree) := []
  deriving Inhabited

namespace Builder

/-- Puts a tree into the innermost open node. -/
def add (t : Tree) : Builder → Builder
  | ⟨done, []⟩ => ⟨t :: done, []⟩
  | ⟨done, (k, ts) :: frames⟩ => ⟨done, (k, t :: ts) :: frames⟩

/-- Opens a node inside the innermost open one. -/
def start (k : Kind) (b : Builder) : Builder := { b with frames := (k, []) :: b.frames }

/-- Closes the innermost open node. -/
def finish : Builder → Builder
  | ⟨done, []⟩ => ⟨done, []⟩
  | ⟨done, (k, ts) :: frames⟩ => add (.node k ts.reverse) ⟨done, frames⟩

/-- The tree that was made, if there is exactly one and it is a node. A node that
was never closed leaves only what was put into it. -/
def result? (b : Builder) : Option Tree :=
  match b.frames.flatMap Prod.snd ++ b.done with
  | [.node k ts] => some (.node k ts)
  | _ => none

end Builder

/-- Taking a start out of a log leaves fewer of them. -/
theorem countP_isStart_lt {log : Array Event} {i : Nat} {k : Kind} {outer : Option Nat}
    (h : log[i]? = some (.start k outer)) :
    (log.setIfInBounds i .placeholder).countP Event.isStart < log.countP Event.isStart := by
  obtain ⟨hi, he⟩ := Array.getElem?_eq_some_iff.mp h
  have hpos : 0 < log.countP Event.isStart :=
    Array.countP_pos_iff.mpr ⟨log[i], Array.getElem_mem hi, by rw [he]; rfl⟩
  rw [Array.setIfInBounds_def, dif_pos hi, Array.countP_set, he]
  simp only [Event.isStart, if_true]
  simp only [Bool.false_eq_true, if_false]
  omega

/-- The kinds of the starts reached from `next` through `outer`, nearest first,
and the log with every event that was looked at replaced by a placeholder. A
chain ends where it meets anything but a start. -/
def takeOuter (log : Array Event) : Option Nat → List Kind × Array Event
  | none => ([], log)
  | some i =>
    match h : log[i]? with
    | some (.start k outer) =>
      have := countP_isStart_lt h
      let (kinds, rest) := takeOuter (log.setIfInBounds i .placeholder) outer
      (k :: kinds, rest)
    | _ => ([], log.setIfInBounds i .placeholder)
termination_by log.countP Event.isStart

/-- State of a replay: what is left of the log and of the tokens, and the tree so
far. -/
structure Replay where
  log : Array Event
  tokens : List Token
  builder : Builder := {}

/-- Acts on the event at index `i` and takes it out of the log. A start opens its
outer nodes first, the outermost before all. -/
def Replay.step (r : Replay) (i : Nat) : Replay :=
  let log := r.log.setIfInBounds i .placeholder
  match r.log[i]? with
  | some (.start k outer) =>
    let (kinds, log) := takeOuter log outer
    { r with log, builder := (k :: kinds).foldr Builder.start r.builder }
  | some (.token k) =>
    match r.tokens with
    | [] => { r with log }
    | t :: ts => { log, tokens := ts, builder := r.builder.add (.token k t.text) }
  | some .finish => { r with log, builder := r.builder.finish }
  | _ => r

/-- **The tree an event log describes** over the given tokens. -/
def Tree.ofEvents? (tokens : List Token) (events : Array Event) : Option Tree :=
  ((List.range events.size).foldl Replay.step { log := events, tokens }).builder.result?

end Syntax
end Uci
