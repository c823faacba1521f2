import Uci.Syntax.Grammar
import Uci.Syntax.Quote

/-!
# Statements

What a tree says, without spacing, comments and quotes: the packages and sections
of a file, the entries of a section, and the values these are made of. Where the
source had an error a statement may lack a value.

* `Value` — what a value stands for and where it was written.
* `Entry`, `Section`, `Item` — statements.
* `Parse.items` — the statements of a source, in its order.
-/

namespace Uci
namespace Syntax

/-- **Value**: what was written, quotes removed, and the byte it starts at. -/
structure Value where
  text : Text
  offset : Nat
  deriving DecidableEq, Repr

/-- **Entry** of a section: a line below its header. -/
inductive Entry where
  | option (name value : Option Value)
  | list (name value : Option Value)
  deriving DecidableEq, Repr

/-- **Section**: a `config` line and the lines that belong to it. -/
structure Section where
  /-- The type, the first value of the header. -/
  type : Option Value
  /-- The name, its second value; anonymous sections have none. -/
  name : Option Value
  /-- The header as it was written. -/
  header : Text
  entries : List Entry
  deriving DecidableEq, Repr

/-- **Item** of a file. -/
inductive Item where
  | package (name : Option Value)
  | «section» (body : Section)
  deriving DecidableEq, Repr

namespace Tree

/-- What the tokens right below a value stand for, put together. -/
def contents (ts : List Tree) : Text :=
  ts.flatMap fun
    | token k t => Token.content ⟨k, t⟩
    | node _ _ => []

/-- The tree at an offset, read as a value. -/
def value? : Nat × Tree → Option Value
  | (offset, node .value ts) => some ⟨contents ts, offset⟩
  | _ => none

/-- The values right below a node that starts at `offset`. -/
def values (offset : Nat) (ts : List Tree) : List Value := (located offset ts).filterMap value?

/-- The tree at an offset, read as an entry of a section. -/
def entry? : Nat × Tree → Option Entry
  | (offset, node .option ts) => some (.option (values offset ts)[0]? (values offset ts)[1]?)
  | (offset, node .list ts) => some (.list (values offset ts)[0]? (values offset ts)[1]?)
  | _ => none

/-- The tree at an offset, if it is the header of a section. -/
def header? : Nat × Tree → Option (Nat × Tree)
  | (offset, node .sectionHeader ts) => some (offset, node .sectionHeader ts)
  | _ => none

/-- The section whose node starts at `offset`. -/
def sectionOf (offset : Nat) (ts : List Tree) : Section :=
  let entries := (located offset ts).filterMap entry?
  match (located offset ts).findSome? header? with
  | some (start, header) =>
    let values := values start header.children
    { type := values[0]?, name := values[1]?, header := header.text, entries }
  | none => { type := none, name := none, header := [], entries }

/-- The tree at an offset, read as an item of a file. -/
def item? : Nat × Tree → Option Item
  | (offset, node .package ts) => some (.package (values offset ts)[0]?)
  | (offset, node .section ts) => some (.section (sectionOf offset ts))
  | _ => none

end Tree

/-- **The statements of a source**, packages and sections in its order. -/
def Parse.items (p : Parse) : List Item :=
  (Tree.located 0 p.tree.children).filterMap Tree.item?

/-- The sections of a source, in its order. -/
def Parse.sections (p : Parse) : List Section :=
  p.items.filterMap fun
    | .section body => some body
    | .package _ => none

end Syntax
end Uci
