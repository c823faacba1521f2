import Uci.Syntax.Error
import Uci.Syntax.Event

/-!
# The parser's state

A parser walks over the tokens of a source, one at a time, and writes an event
log and a list of errors. It never fails and never goes back.

A node is opened with `Parser.start`, which reserves a place in the log and hands
out a `Marker`. The marker is given back with `Parser.complete`, which writes the
node's kind into that place, or with `Parser.abandon`. A completed node can still
be put into another one: `Parser.precede` opens a marker for a node around it.
-/

namespace Uci
namespace Syntax

/-- **State of a parser.** -/
structure Parser where
  /-- The tokens still to be read. -/
  rest : List Token
  /-- The byte the next token starts at. -/
  offset : Nat := 0
  /-- The log written so far. -/
  events : Array Event := #[]
  /-- The errors found so far, in the order they were found. -/
  errors : Array SyntaxError := #[]
  deriving Inhabited

/-- A node that has been opened, by its place in the log. -/
structure Marker where
  index : Nat
  deriving DecidableEq, Repr

/-- A node that has been completed, by the place of its start in the log. -/
structure Completed where
  index : Nat
  deriving DecidableEq, Repr

namespace Parser

/-- A parser in front of a source. -/
def ofText (source : Text) : Parser where
  rest := Token.ofText source

/-! ### Looking ahead -/

/-- The kind of the `n`-th token from here. -/
def nth (p : Parser) (n : Nat) : Kind := (p.rest[n]?.map Token.kind).getD .endOfFile

/-- The kind of the next token. -/
def current (p : Parser) : Kind := p.nth 0

/-- The text of the next token; nothing at the end of the source. -/
def currentText (p : Parser) : Text := (p.rest.head?.map Token.text).getD []

/-- Have all tokens been read? -/
def atEnd (p : Parser) : Bool := p.rest.isEmpty

/-- Is the next token of the given kind? -/
def isAt (p : Parser) (k : Kind) : Bool := p.current = k

/-- Is the next token the bare word `w`? -/
def isAtWord (p : Parser) (w : Text) : Bool := p.isAt .word && p.currentText = w

/-- The bytes of the next token; an empty range at the end of the source. -/
def currentRange (p : Parser) : Nat × Nat := (p.offset, p.offset + p.currentText.size)

/-! ### Taking tokens -/

/-- Takes the next token, to be kept in the tree as `k`. At the end of the source
there is nothing to take. -/
def bumpAs (p : Parser) (k : Kind) : Parser :=
  match p.rest with
  | [] => p
  | t :: ts =>
    { p with rest := ts, offset := p.offset + t.text.size, events := p.events.push (.token k) }

/-- Takes the next token as it is. -/
def bump (p : Parser) : Parser := p.bumpAs p.current

/-- Takes the next token if it is of the given kind, and says whether it was. -/
def eat (p : Parser) (k : Kind) : Bool × Parser :=
  if p.isAt k then (true, p.bump) else (false, p)

/-- Takes tokens as long as their kind passes the test. -/
def bumpWhile (p : Parser) (test : Kind → Bool) : Parser :=
  (p.rest.takeWhile fun t => test t.kind).foldl (fun p _ => p.bump) p

/-! ### Reporting -/

/-- Records an error that covers the next token. -/
def error (p : Parser) (fault : Fault) : Parser :=
  { p with errors := p.errors.push ⟨fault, p.currentRange.1, p.currentRange.2⟩ }

/-! ### Nodes -/

/-- Opens a node here. -/
def start (p : Parser) : Marker × Parser :=
  (⟨p.events.size⟩, { p with events := p.events.push .placeholder })

/-- Closes the node of a marker here and says what it is. -/
def complete (p : Parser) (m : Marker) (k : Kind) : Completed × Parser :=
  (⟨m.index⟩,
    { p with events := (p.events.setIfInBounds m.index (.start k none)).push .finish })

/-- Gives a marker back without making a node. Its place in the log stays empty,
and is freed if nothing was written behind it. -/
def abandon (p : Parser) (m : Marker) : Parser :=
  if m.index + 1 = p.events.size then { p with events := p.events.pop } else p

/-- Opens a node that is to stand around a completed one. -/
def precede (p : Parser) (c : Completed) : Marker × Parser :=
  match p.start.2.events[c.index]? with
  | some (.start k _) =>
    (p.start.1, { p with
      events := p.start.2.events.setIfInBounds c.index (.start k (some p.start.1.index)) })
  | _ => p.start

/-- Reads a node of kind `k` by the given rule. -/
def node (p : Parser) (k : Kind) (rule : Parser → Parser) : Completed × Parser :=
  (rule p.start.2).complete p.start.1 k

/-- Reads a node of kind `k` around a completed one, which is followed by what the
given rule reads. -/
def nodeAround (inner : Completed × Parser) (k : Kind) (rule : Parser → Parser) : Parser :=
  let outer := inner.2.precede inner.1
  ((rule outer.2).complete outer.1 k).2

/-! ### What each step leaves to be read -/

@[simp] theorem rest_bumpAs (p : Parser) (k : Kind) : (p.bumpAs k).rest = p.rest.tail := by
  unfold bumpAs
  split <;> simp_all

@[simp] theorem rest_bump (p : Parser) : p.bump.rest = p.rest.tail := rest_bumpAs p _

@[simp] theorem rest_error (p : Parser) (fault : Fault) : (p.error fault).rest = p.rest := rfl

@[simp] theorem rest_start (p : Parser) : p.start.2.rest = p.rest := rfl

@[simp] theorem rest_complete (p : Parser) (m : Marker) (k : Kind) :
    (p.complete m k).2.rest = p.rest := rfl

@[simp] theorem rest_precede (p : Parser) (c : Completed) : (p.precede c).2.rest = p.rest := by
  unfold precede
  split <;> rfl

@[simp] theorem rest_node (p : Parser) (k : Kind) (rule : Parser → Parser) :
    (p.node k rule).2.rest = (rule p.start.2).rest := rfl

@[simp] theorem rest_nodeAround (inner : Completed × Parser) (k : Kind)
    (rule : Parser → Parser) :
    (nodeAround inner k rule).rest = (rule (inner.2.precede inner.1).2).rest := rfl

theorem current_eq (p : Parser) : p.current = (p.rest.head?.map Token.kind).getD .endOfFile := by
  rw [current, nth, List.head?_eq_getElem?]

@[simp] theorem rest_bumpWhile (p : Parser) (test : Kind → Bool) :
    (p.bumpWhile test).rest = p.rest.dropWhile fun t => test t.kind := by
  unfold bumpWhile
  generalize hl : p.rest = l
  induction l generalizing p with
  | nil => simpa using hl
  | cons t ts ih =>
    by_cases h : test t.kind = true
    · simp only [List.takeWhile_cons, h, if_true, List.foldl_cons, List.dropWhile_cons]
      exact ih p.bump (by simp [hl])
    · simp [h, hl]

end Parser
end Syntax
end Uci
