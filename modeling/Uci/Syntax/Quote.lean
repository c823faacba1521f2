import Uci.Syntax.Token

/-!
# Quoted values

A value is written as words and quoted texts without space between them, and
stands for what these stand for, put together. Single quotes take every character
as it is; between double quotes a backslash gives the character behind it another
meaning.

* `unescape` — what the inside of double quotes stands for.
* `Token.content` — what one piece of a value stands for.
* `quote` — a written form for any value: single quotes, or double quotes for a
  value that holds a single quote.
-/

namespace Uci
namespace Syntax

/-- What the inside of double quotes stands for: `\n` and `\t` for a line feed and
a tab, a backslash before a line end for nothing, a backslash before any other
character for that character. A backslash that nothing follows stands for itself. -/
def unescape : Text → Text
  | [] => []
  | c :: t =>
    if c = '\\' then
      match t with
      | [] => [c]
      | d :: t =>
        if d = 'n' then '\n' :: unescape t
        else if d = 't' then '\t' :: unescape t
        else if d = '\n' then unescape t
        else d :: unescape t
    else c :: unescape t

/-- The text between the quotes around it. -/
def inside (t : Text) : Text := t.tail.dropLast

/-- What a token stands for as a piece of a value. -/
def Token.content (t : Token) : Text :=
  match t.kind with
  | .singleQuoted => inside t.text
  | .doubleQuoted => unescape (inside t.text)
  | _ => t.text

/-- Puts a backslash before every backslash and every double quote. -/
def escapeQuotes (t : Text) : Text :=
  t.flatMap fun c => if c = '\\' || c = '"' then ['\\', c] else [c]

/-- **The written form of a value.** -/
def quote (value : Text) : Text :=
  if value.contains '\'' then '"' :: escapeQuotes value ++ ['"']
  else '\'' :: value ++ ['\'']

@[simp] theorem inside_cons_append (q r : Char) (t : Text) : inside (q :: t ++ [r]) = t := by
  simp [inside]

end Syntax
end Uci
