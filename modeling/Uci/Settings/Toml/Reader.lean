import Uci.Settings.Toml.Scalar
import Uci.Settings.Toml.Table

/-!
# Reading TOML

A document is read line by line, apart from values that take more than one. Every
line is blank, opens a table, or gives a key a value.

* `keys` — a key with its dots.
* `value` — a value of any kind.
* `read?` — the table that a document describes, if it is one.
-/

namespace Uci
namespace Toml

/-- Characters of a key without quotes. -/
def isKeyChar (c : Char) : Bool := c.isAlphanum || c = '_' || c = '-'

/-- One part of a key: bare, or a string of one line. -/
def key : Text → Option (Text × Text)
  | '"' :: t => openedShort '"' true t
  | '\'' :: t => openedShort '\'' false t
  | t =>
    if (t.takeWhile isKeyChar).isEmpty then none
    else some (t.takeWhile isKeyChar, t.dropWhile isKeyChar)

/-- `keys`, for a key of at most `n` parts. -/
def keysWithin : Nat → Text → Option (List Text × Text)
  | 0, _ => none
  | n + 1, t => do
    let (first, t) ← key (skipSpace t)
    match skipSpace t with
    | '.' :: t =>
      let (further, t) ← keysWithin n t
      return (first :: further, t)
    | t => return ([first], t)

/-- How many parts a key may have, and how deep values may stand in each other. -/
def maxDepth : Nat := 80

/-- **A key**: its parts, which dots separate. -/
def keys (t : Text) : Option (List Text × Text) := keysWithin maxDepth t

/-- The text behind spaces, comments and line ends. -/
def skipAll (t : Text) : Text := skipLines (t.length + 1) t

mutual

/-- A value of at most `n` characters, in which values stand at most `depth` deep. -/
def valueWithin : Nat → Nat → Text → Option (Value × Text)
  | 0, _, _ => none
  | n + 1, depth, t =>
    match t, depth with
    | '[' :: _, 0 | '\x7b' :: _, 0 => none
    | '[' :: t, depth + 1 => (itemsWithin n depth (skipAll t)).map (.other, ·)
    | '\x7b' :: t, depth + 1 => (pairsWithin n depth [] (skipAll t)).map (.other, ·)
    | '"' :: _, _ | '\'' :: _, _ => (string t).map fun (s, t) => (.text s, t)
    | t, _ => if isScalar (scalarText t).1 then some (.other, (scalarText t).2) else none

/-- The rest of an array. -/
def itemsWithin : Nat → Nat → Text → Option Text
  | 0, _, _ => none
  | n + 1, depth, t =>
    match t with
    | ']' :: t => some t
    | t => do
      let (_, t) ← valueWithin n depth t
      match skipAll t with
      | ',' :: t => itemsWithin n depth (skipAll t)
      | ']' :: t => some t
      | _ => none

/-- The rest of a table in braces. -/
def pairsWithin : Nat → Nat → Table → Text → Option Text
  | 0, _, _, _ => none
  | n + 1, depth, table, t =>
    match t with
    | '\x7d' :: t => some t
    | t => do
      let (way, t) ← keys t
      match skipAll t with
      | '=' :: t =>
        let (v, t) ← valueWithin n depth (skipAll t)
        let table ← table.assign v way
        match skipAll t with
        | ',' :: t => pairsWithin n depth table (skipAll t)
        | '\x7d' :: t => some t
        | _ => none
      | _ => none

end

/-- **A value** of any kind. -/
def value (t : Text) : Option (Value × Text) := valueWithin (t.length + 1) maxDepth t

/-- A document in progress: what it says so far, and the table that is open. -/
structure Draft where
  table : Table := []
  opened : List Text := []

/-- A line that opens a table, behind its first bracket. -/
def header (d : Draft) : Text → Option (Draft × Text)
  | '[' :: t => do
    let (way, t) ← keys t
    match t with
    | ']' :: ']' :: t =>
      let table ← d.table.openRow way
      return ({ table, opened := way }, t)
    | _ => none
  | t => do
    let (way, t) ← keys t
    match t with
    | ']' :: t =>
      let table ← d.table.openTable way
      return ({ table, opened := way }, t)
    | _ => none

/-- A line that gives a key a value. -/
def assignment (d : Draft) (t : Text) : Option (Draft × Text) := do
  let (way, t) ← keys t
  match t with
  | '=' :: t =>
    let (v, t) ← value (skipSpace t)
    let table ← d.table.assignIn d.opened way v
    return ({ d with table }, t)
  | _ => none

/-- What a line says; a blank one says nothing. -/
def line (d : Draft) (t : Text) : Option (Draft × Text) :=
  match t with
  | [] | '#' :: _ | '\n' :: _ | '\r' :: _ => some (d, t)
  | '[' :: t => header d t
  | t => assignment d t

/-- The lines of a document, of which at most `n`. -/
def lines : Nat → Draft → Text → Option Table
  | 0, _, _ => none
  | n + 1, d, t =>
    if t.isEmpty then some d.table
    else do
      let (d, t) ← line d (skipSpace t)
      let t ← endLine? t
      lines n d t

/-- **The table that a document describes.** A byte order mark may stand in front. -/
def read? (t : Text) : Option Table :=
  let t := if t.head? = some '\ufeff' then t.tail else t
  lines (t.length + 1) {} t

end Toml
end Uci
