import Uci.Text.Basic

/-!
# TOML tables

A document is a table of keys, some of which are tables themselves. No key is given
twice, and a table that is complete takes no more keys; how it came to be decides
when it is.

* `Value`, `Entry` — values, and what a key can be given.
* `Table.assign`, `Table.openTable`, `Table.openRow` — the three statements.
-/

namespace Uci
namespace Toml

/-- **Value**. Only strings are kept by what they stand for. -/
inductive Value where
  | text (t : Text)
  | other
  deriving DecidableEq, Repr

/-- How a table came to be. -/
inductive Origin where
  /-- By its own header; it is complete at the next one. -/
  | header
  /-- On the way to the header of a table below it, so that its own may follow. -/
  | way
  /-- On the way of a dotted key. -/
  | dotted
  deriving DecidableEq, Repr

/-- **What a key is given.** -/
inductive Entry where
  | value (v : Value)
  | table (origin : Origin) (entries : List (Text × Entry))
  /-- A row of tables, by the keys of the last one. -/
  | row (last : List (Text × Entry))
  deriving Repr

/-- Whether an entry is a table that only dotted keys have made. -/
def Entry.isDotted : Entry → Bool
  | .table .dotted _ => true
  | _ => false

/-- **Table**: keys with what they are given. -/
abbrev Table := List (Text × Entry)

namespace Table

/-- What a key is given. -/
def get? (t : Table) (key : Text) : Option Entry := t.lookup key

/-- Gives a key something, in the place of what it had. -/
def set (t : Table) (key : Text) (e : Entry) : Table :=
  (key, e) :: t.filter fun (k, _) => k ≠ key

/-- The table that a key is given, through which a header or a dotted key leads. A dotted
key does not lead through a table that has a header of its own. -/
def below? (dotted : Bool) (t : Table) (key : Text) : Option (Table × (Table → Entry)) :=
  match t.get? key with
  | none => some ([], .table (if dotted then .dotted else .way))
  | some (.table origin entries) =>
    if dotted && origin = .header then none else some (entries, .table origin)
  | some (.row last) => some (last, .row)
  | some (.value _) => none

/-- Changes the table at the end of a way of headers, making the tables on it. -/
def update (f : Table → Option Table) : List Text → Table → Option Table
  | [], t => f t
  | key :: way, t => do
    let (inner, wrap) ← t.below? false key
    let inner ← update f way inner
    return t.set key (wrap inner)

/-- A key that was not given before. -/
def setNew (t : Table) (key : Text) (e : Entry) : Option Table :=
  if (t.get? key).isSome then none else some (t.set key e)

/-- Gives a key a value, below the tables that its dots lead through. The last of these
has to be one that only dotted keys have made. -/
def assign (v : Value) : List Text → Table → Option Table
  | [], _ => none
  | [key], t => t.setNew key (.value v)
  | key :: way, t => do
    let (inner, wrap) ← t.below? true key
    if way.length = 1 && !(wrap inner).isDotted then none
    else
      let inner ← assign v way inner
      return t.set key (wrap inner)

/-- Opens a table by its header, which no table has twice. -/
def openTable (keys : List Text) (t : Table) : Option Table := do
  let key ← keys.getLast?
  t.update
    (fun inner =>
      match inner.get? key with
      | none => some (inner.set key (.table .header []))
      | some (.table .way entries) => some (inner.set key (.table .header entries))
      | _ => none)
    keys.dropLast

/-- Opens the next table of a row by its header. -/
def openRow (keys : List Text) (t : Table) : Option Table := do
  let key ← keys.getLast?
  t.update
    (fun inner =>
      match inner.get? key with
      | none | some (.row _) => some (inner.set key (.row []))
      | _ => none)
    keys.dropLast

/-- Gives a key a value in the table that was opened last. -/
def assignIn (opened keys : List Text) (v : Value) (t : Table) : Option Table :=
  t.update (assign v keys) opened

end Table

end Toml
end Uci
