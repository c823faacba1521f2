import Uci.Text.Basic
import Uci.Text.Extending
import Uci.Text.Printable

/-!
# Escaped text in messages

A message that repeats a piece of input shows it so that nothing in it can be
mistaken: line breaks, tabs, backslashes and quotes by a letter or by themselves
behind a backslash, and what cannot be printed by its code point.

* `quoted` — between double quotes, as a literal; a single quote needs no escape.
* `escaped` — bare, both quotes escaped. An extending character is shown by its
  code point only at the start, where it has nothing to join.
-/

namespace Uci
namespace Text

/-- The code point of `c` in lower case hexadecimal, as `\u{…}`. -/
private def codePoint (c : Char) : Text :=
  "\\u\x7b".toList ++ Nat.toDigits 16 c.toNat ++ ['\x7d']

/-- One character of a message. `single` says whether a single quote is escaped,
`extending` whether an extending character is. -/
private def escapeChar (single extending : Bool) (c : Char) : Text :=
  match c with
  | '\x00' => ['\\', '0']
  | '\t' => ['\\', 't']
  | '\r' => ['\\', 'r']
  | '\n' => ['\\', 'n']
  | '\\' => ['\\', '\\']
  | '"' => ['\\', '"']
  | c =>
    if c = '\'' && single then ['\\', '\'']
    else if extending && isExtending c then codePoint c
    else if isPrintable c then [c]
    else codePoint c

/-- The text as a literal between double quotes. -/
def quoted (t : Text) : String :=
  String.ofList ('"' :: t.flatMap (escapeChar false true) ++ ['"'])

/-- The text escaped for the middle of a message. -/
def escaped : Text → String
  | [] => ""
  | c :: t => String.ofList (escapeChar true true c ++ t.flatMap (escapeChar true false))

end Text
end Uci
