/-!
# Kinds of syntax

One enumeration names every kind of token and every kind of node of a syntax
tree. The tokens come first, so a kind is told apart by its number: up to
`endOfFile` it is a token, after that a node.

* `Kind.number`, `Kind.ofNumber?` — the number of a kind and back.
* `Kind.isToken`, `Kind.isNode` — the two halves of the enumeration.
* `Kind.isTrivia`, `Kind.isValuePart` — tokens that carry no statement, and
  tokens a value is made of.
-/

namespace Uci
namespace Syntax

/-- **Kind** of a token or of a node. -/
inductive Kind where
  /-- A run of spaces and tabs. -/
  | whitespace
  /-- A line feed, with the carriage return before it if there is one. -/
  | newline
  /-- A `#` and what follows it on its line. -/
  | comment
  /-- A bare word. -/
  | word
  /-- A text between single quotes, taken as it stands. -/
  | singleQuoted
  /-- A text between double quotes, with backslash escapes. -/
  | doubleQuoted
  /-- The word `package` at the start of a statement. -/
  | packageKeyword
  /-- The word `config` at the start of a statement. -/
  | configKeyword
  /-- The word `option` at the start of a statement. -/
  | optionKeyword
  /-- The word `list` at the start of a statement. -/
  | listKeyword
  /-- Text that no token pattern matches. -/
  | unknown
  /-- The end of the source; it stands in no tree. -/
  | endOfFile
  /-- The whole file. -/
  | root
  /-- A `package` statement. -/
  | package
  /-- A section: its header and the statements that belong to it. -/
  | section
  /-- The `config` line that opens a section. -/
  | sectionHeader
  /-- An `option` statement. -/
  | option
  /-- A `list` statement. -/
  | list
  /-- One value: words and quoted texts without space between them. -/
  | value
  /-- A stretch of a line that could not be read. -/
  | error
  deriving DecidableEq, Repr, Inhabited

namespace Kind

/-- Every kind, in the order of the numbers. -/
def all : List Kind :=
  [whitespace, newline, comment, word, singleQuoted, doubleQuoted, packageKeyword, configKeyword,
    optionKeyword, listKeyword, unknown, endOfFile, root, package, «section», sectionHeader, option,
    list, value, error]

/-- The number of a kind: its place in `all`. -/
def number (k : Kind) : Nat := all.idxOf k

/-- The kind with a given number. -/
def ofNumber? (n : Nat) : Option Kind := all[n]?

@[simp] theorem ofNumber?_number (k : Kind) : ofNumber? k.number = some k := by
  cases k <;> rfl

/-- Tokens are the kinds up to the end of the file. -/
def isToken (k : Kind) : Bool := k.number ≤ endOfFile.number

/-- Nodes are the kinds that are no tokens. -/
def isNode (k : Kind) : Bool := !k.isToken

/-- Trivia: tokens that carry no statement. -/
def isTrivia : Kind → Bool
  | whitespace | newline | comment => true
  | _ => false

/-- The tokens a value may be made of. -/
def isValuePart : Kind → Bool
  | word | singleQuoted | doubleQuoted => true
  | _ => false

end Kind
end Syntax
end Uci
