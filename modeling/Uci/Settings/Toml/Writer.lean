import Uci.Text.Basic

/-!
# Writing TOML

A string is written in the plainest form that can hold it: between double quotes if
nothing has to be escaped, between single quotes if nothing but double quotes and
backslashes stands in the way, in the forms of many lines otherwise, and escaped only
if no form takes it as it is.

* `writeString` — a string in its plainest form.
* `writeAssignment` — a line that gives a key a string.
-/

namespace Uci
namespace Toml

/-- The length of the longest run of `q` in a text. -/
def longestRun (q : Char) (t : Text) : Nat :=
  (t.foldl
    (fun (run, longest) c => if c = q then (run + 1, max longest (run + 1)) else (0, longest))
    (0, 0)).2

/-- Control characters that no form takes as they are. -/
def needsCode (c : Char) : Bool :=
  (c.toNat < 0x20 && c ≠ '\t' && c ≠ '\n') || c.toNat = 0x7f

/-- A number with at least four hexadecimal digits. -/
def fourDigits (n : Nat) : Text :=
  let digits := (Nat.toDigits 16 n).map Char.toUpper
  List.replicate (4 - digits.length) '0' ++ digits

/-- A character between double quotes. `long` says whether line ends may stand. -/
def writeChar (long : Bool) (c : Char) : Text :=
  match c with
  | '\x08' => ['\\', 'b']
  | '\t' => ['\\', 't']
  | '\x0c' => ['\\', 'f']
  | '\r' => ['\\', 'r']
  | '\\' => ['\\', '\\']
  | '\n' => if long then ['\n'] else ['\\', 'n']
  | c => if c.toNat < 0x20 || c.toNat = 0x7f then '\\' :: 'u' :: fourDigits c.toNat else [c]

/-- The inside of double quotes. A double quote is escaped if `free` others stand right
in front of it as they are. -/
def writeInside (long : Bool) (free : Nat) : Nat → Text → Text
  | _, [] => []
  | run, c :: t =>
    if c = '"' then
      if run < free then '"' :: writeInside long free (run + 1) t
      else '\\' :: '"' :: writeInside long free 0 t
    else writeChar long c ++ writeInside long free 0 t

/-- The line end with which a string of many lines begins, if it has more than one. -/
def firstBreak (t : Text) : Text := if t.contains '\n' then ['\n'] else []

/-- A string between double quotes. -/
def basic (t : Text) : Text := '"' :: writeInside false 0 0 t ++ ['"']

/-- A string between single quotes. -/
def literal (t : Text) : Text := '\'' :: t ++ ['\'']

/-- A string between triple double quotes. -/
def longBasic (t : Text) : Text :=
  "\"\"\"".toList ++ firstBreak t ++ writeInside true 2 0 t ++ "\"\"\"".toList

/-- A string between triple single quotes. -/
def longLiteral (t : Text) : Text := "'''".toList ++ firstBreak t ++ t ++ "'''".toList

/-- **A string in its plainest form.** -/
def writeString (t : Text) : Text :=
  let coded := t.any needsCode
  let backslash := t.contains '\\'
  let broken := t.contains '\n'
  if !coded && !backslash && !broken && !t.contains '"' then basic t
  else if !coded && !broken && !t.contains '\'' then literal t
  else if !coded && !backslash && longestRun '"' t ≤ 2 then longBasic t
  else if !coded && longestRun '\'' t ≤ 2 then longLiteral t
  else if broken then longBasic t
  else basic t

/-- **A line** that gives a key a string. -/
def writeAssignment (key t : Text) : Text := key ++ " = ".toList ++ writeString t ++ ['\n']

end Toml
end Uci
