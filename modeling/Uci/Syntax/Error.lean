import Uci.Text.Escape
import Uci.Text.Position

/-!
# Syntax errors

What can be wrong with a line, and where in the source it is wrong. The wording
of every error is in `Fault.message` and nowhere else.
-/

namespace Uci
namespace Syntax

/-- A piece of a statement that must not be left out. -/
inductive Piece where
  | packageName
  | sectionType
  | optionName
  | optionValue
  | listName
  deriving DecidableEq, Repr

/-- **Fault**: what is wrong. -/
inductive Fault where
  /-- An `option` or `list` line that no `config` line stands above. -/
  | outsideSection (keyword : Text)
  /-- A line that begins with no keyword. -/
  | notAStatement (found : Text)
  /-- A statement ends before this piece of it. -/
  | missing (piece : Piece)
  /-- Something is left on the line behind a complete statement. -/
  | unexpected (found : Text)
  /-- The line goes on with a quote that is never closed. -/
  | unterminated
  /-- A fault stated in words of the caller. -/
  | stated (message : Text)
  deriving DecidableEq, Repr

namespace Fault

/-- The words for a fault. -/
def message : Fault → String
  | outsideSection keyword => s!"`{keyword.str}` outside of a `config` section"
  | notAStatement found => s!"expected `config` or `package`, found `{found.escaped}`"
  | missing .packageName => "expected package name after `package`"
  | missing .sectionType => "expected section type after `config`"
  | missing .optionName => "expected option name after `option`"
  | missing .optionValue => "expected option value"
  | missing .listName => "expected list name after `list`"
  | unexpected found => s!"unexpected `{found.escaped}`"
  | unterminated => "unterminated quoted string"
  | stated message => message.str

end Fault

/-- **Syntax error**: a fault and the bytes it covers. -/
structure SyntaxError where
  fault : Fault
  start : Nat
  stop : Nat
  deriving DecidableEq, Repr

/-- Where the error begins, as a person counts it. -/
def SyntaxError.position (e : SyntaxError) (source : Text) : Position :=
  .ofOffset source e.start

end Syntax
end Uci
