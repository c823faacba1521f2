import Uci.Text.Basic

/-!
# Scanning TOML

The smallest parts of a TOML document: blanks and comments, and strings in their four
forms. Whatever is taken from the start of a text is answered with the text behind
it, or not at all where the document is malformed.

* `skipSpace`, `skipComment`, `skipLines`, `endLine?` — what separates.
* `string` — a string, and what it stands for.
-/

namespace Uci
namespace Toml

/-! ### Blanks, comments and line ends -/

/-- A space or a tab. -/
def isSpace (c : Char) : Bool := c = ' ' || c = '\t'

/-- The text behind its leading spaces and tabs. -/
def skipSpace (t : Text) : Text := t.dropWhile isSpace

/-- Control characters, of which only the tab may be written as it is. -/
def isControl (c : Char) : Bool := (c.toNat < 0x20 && c ≠ '\t') || c.toNat = 0x7f

/-- The text behind a line end, if one is there. -/
def newline? : Text → Option Text
  | '\n' :: t => some t
  | '\r' :: '\n' :: t => some t
  | _ => none

/-- The text behind a comment, if one is there: up to the next control character. -/
def skipComment : Text → Text
  | '#' :: t => t.dropWhile fun c => !isControl c
  | t => t

/-- The text behind the rest of a line, on which only spaces and a comment may
stand. -/
def endLine? (t : Text) : Option Text :=
  match skipComment (skipSpace t) with
  | [] => some []
  | t => newline? t

/-- The text behind spaces, comments and line ends, of which at most `n`. -/
def skipLines : Nat → Text → Text
  | 0, t => t
  | n + 1, t =>
    match newline? (skipComment (skipSpace t)) with
    | some t => skipLines n t
    | none => skipSpace t

/-! ### Strings -/

/-- The value of a hexadecimal digit. -/
def hexValue? (c : Char) : Option Nat :=
  if c.isDigit then some (c.toNat - '0'.toNat)
  else if 'a' ≤ c ∧ c ≤ 'f' then some (c.toNat - 'a'.toNat + 10)
  else if 'A' ≤ c ∧ c ≤ 'F' then some (c.toNat - 'A'.toNat + 10)
  else none

/-- The number that `n` hexadecimal digits at the start stand for. -/
def hexNumber : Nat → Nat → Text → Option (Nat × Text)
  | 0, value, t => some (value, t)
  | n + 1, value, c :: t => do
    let digit ← hexValue? c
    hexNumber n (value * 16 + digit) t
  | _ + 1, _, [] => none

/-- The character with a code point given in `n` hexadecimal digits. -/
def codePoint (n : Nat) (t : Text) : Option (Char × Text) := do
  let (value, t) ← hexNumber n 0 t
  if value.isValidChar then some (Char.ofNat value, t) else none

/-- What a backslash and the text behind it stand for. -/
def escape : Text → Option (Char × Text)
  | 'b' :: t => some ('\x08', t)
  | 't' :: t => some ('\t', t)
  | 'n' :: t => some ('\n', t)
  | 'f' :: t => some ('\x0c', t)
  | 'r' :: t => some ('\r', t)
  | 'e' :: t => some ('\x1b', t)
  | '"' :: t => some ('"', t)
  | '\\' :: t => some ('\\', t)
  | 'x' :: t => codePoint 2 t
  | 'u' :: t => codePoint 4 t
  | 'U' :: t => codePoint 8 t
  | _ => none

/-- The text behind its leading spaces and line ends. -/
def skipBlanks : Text → Text
  | [] => []
  | '\r' :: '\n' :: t => skipBlanks t
  | c :: t => if isSpace c || c = '\n' then skipBlanks t else c :: t

/-- The text behind a line end that a backslash hides, with all spaces and line ends
that follow. -/
def skipHidden? (t : Text) : Option Text := (newline? (skipSpace t)).map skipBlanks

/-- A string of one line up to its closing `quote`; `escapes` says whether a backslash
has a meaning. At most `n` characters are taken. -/
def shortString (quote : Char) (escapes : Bool) : Nat → Text → Option (Text × Text)
  | 0, _ => none
  | _ + 1, [] => none
  | n + 1, c :: t =>
    if c = quote then some ([], t)
    else if c = '\\' && escapes then do
      let (d, t) ← escape t
      let (s, t) ← shortString quote escapes n t
      return (d :: s, t)
    else if isControl c then none
    else do
      let (s, t) ← shortString quote escapes n t
      return (c :: s, t)

/-- The quotes with which a string of many lines may end: three close it, and up to two
in front of these belong to it. -/
def closing (quote : Char) (t : Text) : Option (Text × Text) :=
  let run := t.takeWhile (· = quote)
  if 3 ≤ run.length then
    let own := min (run.length - 3) 2
    some (List.replicate own quote, t.drop (own + 3))
  else none

/-- A string of many lines up to its closing quotes, taking at most `n` characters. Its
line ends are kept as they are. -/
def longString (quote : Char) (escapes : Bool) : Nat → Text → Option (Text × Text)
  | 0, _ => none
  | _ + 1, [] => none
  | n + 1, c :: t =>
    match closing quote (c :: t) with
    | some found => some found
    | none =>
      if c = '\\' && escapes then
        match skipHidden? t with
        | some t => longString quote escapes n t
        | none => do
          let (d, t) ← escape t
          let (s, t) ← longString quote escapes n t
          return (d :: s, t)
      else if isControl c && (newline? (c :: t)).isNone then none
      else do
        let (s, t) ← longString quote escapes n t
        return (c :: s, t)

/-- A string of many lines, behind its opening quotes; a line end right there does not
count. -/
def openedLong (quote : Char) (escapes : Bool) (t : Text) : Option (Text × Text) :=
  let t := (newline? t).getD t
  longString quote escapes (t.length + 1) t

/-- A string of one line, behind its opening quote. -/
def openedShort (quote : Char) (escapes : Bool) (t : Text) : Option (Text × Text) :=
  shortString quote escapes (t.length + 1) t

/-- **A string**, and what it stands for. -/
def string : Text → Option (Text × Text)
  | '"' :: '"' :: '"' :: t => openedLong '"' true t
  | '"' :: t => openedShort '"' true t
  | '\'' :: '\'' :: '\'' :: t => openedLong '\'' false t
  | '\'' :: t => openedShort '\'' false t
  | _ => none

end Toml
end Uci
