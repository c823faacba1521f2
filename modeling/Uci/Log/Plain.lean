import Uci.Text.Basic

/-!
# Plain lines

Where the log goes to no terminal, nothing in it may act like a command to one. Of a
line, only text is left: control characters are taken out, but for those that are
white space, and so are the sequences with which a terminal is told what to do.

* `Sequence`, `Sequence.next` — the sequences, and how they go on.
* `plain` — what is left of a line.
-/

namespace Uci
namespace Log

/-- **Sequence** in the middle of which a line can be. -/
inductive Sequence where
  /-- None. -/
  | outside
  /-- An escape character was the last. -/
  | escape
  /-- An escape character and further ones, of which the last is still to come. -/
  | intermediate
  /-- A control sequence. -/
  | control
  /-- The head of a device control string, before its parameters. -/
  | device
  /-- The same, in its parameters. -/
  | deviceParameter
  /-- The same, behind its parameters. -/
  | deviceIntermediate
  /-- A string up to a terminator. -/
  | string
  /-- A command to the operating system. -/
  | command
  deriving DecidableEq, Repr

namespace Sequence

/-- Whether the byte of a string terminator is in the encoding of a character. -/
def endsString (c : Char) : Bool := (String.utf8EncodeChar c).contains 0x9c

/-- What follows the escape character. -/
def afterEscape (c : Char) : Sequence :=
  if ' ' ≤ c ∧ c ≤ '/' then intermediate
  else if c = '[' then control
  else if c = ']' then command
  else if c = 'P' then device
  else if c = 'X' || c = '^' || c = '_' then string
  else if '0' ≤ c ∧ c ≤ '~' then outside
  else escape

/-- What follows within the head of a device control string: its parameters, or what is
none and makes the rest of it a string like any other. -/
def afterDevice (s : Sequence) (isParameter isWrong : Char → Bool) (c : Char) : Sequence :=
  if '@' ≤ c ∧ c ≤ '~' then string
  else if ' ' ≤ c ∧ c ≤ '/' then deviceIntermediate
  else if isWrong c then string
  else if isParameter c then deviceParameter
  else s

/-- **How a sequence goes on** with a character. A new one can begin at any place. -/
def next (s : Sequence) (c : Char) : Sequence :=
  if c = '\x1b' then escape
  else if c = '\x18' || c = '\x1a' then outside
  else
    match s with
    | outside => outside
    | escape => afterEscape c
    | intermediate => if '0' ≤ c ∧ c ≤ '~' then outside else intermediate
    | control => if '@' ≤ c ∧ c ≤ '~' then outside else control
    | device => afterDevice device (fun c => '0' ≤ c ∧ c ≤ '?') (fun _ => false) c
    | deviceParameter =>
      afterDevice deviceParameter (fun c => '0' ≤ c ∧ c ≤ ';') (fun c => '<' ≤ c ∧ c ≤ '?') c
    | deviceIntermediate =>
      afterDevice deviceIntermediate (fun _ => false) (fun c => '0' ≤ c ∧ c ≤ '?') c
    | string => if endsString c then outside else string
    | command => if c = '\x07' then outside else command

/-- Whether a character is text: white space is, also inside of short sequences. -/
def shows (s : Sequence) (c : Char) : Bool :=
  let isWhite := c = '\t' || c = '\n' || c = '\x0c' || c = '\r'
  match s with
  | outside => isWhite || (' ' ≤ c && c ≠ '\x7f')
  | escape | intermediate | control => isWhite
  | _ => false

end Sequence

/-- `plain`, from the middle of a line. Behind a character that was text, what follows
is text as long as it can be; then the sequence goes on that the text was in, unless a
character beyond ASCII has ended it. -/
def plainFrom (inText : Bool) (s : Sequence) : Text → Text
  | [] => []
  | c :: t =>
    if (if inText then Sequence.outside else s).shows c then
      c :: plainFrom true (if c.toNat < 0x80 then s else .outside) t
    else plainFrom false (s.next c) t

/-- **What is left of a line** where no terminal reads it. -/
def plain (t : Text) : Text := plainFrom false .outside t

/-- Text without control characters is left as it is. -/
theorem plain_eq_self {t : Text} (h : ∀ c ∈ t, Sequence.outside.shows c = true) :
    plain t = t := by
  have hfrom : ∀ (inText : Bool) (u : Text), (∀ c ∈ u, Sequence.outside.shows c = true) →
      plainFrom inText .outside u = u := by
    intro inText u hu
    induction u generalizing inText with
    | nil => rfl
    | cons c u ih =>
      have hc : Sequence.outside.shows c = true := hu c (by simp)
      have hd : ∀ d ∈ u, Sequence.outside.shows d = true := fun d hd => hu d (by simp [hd])
      simp only [plainFrom, ite_self, hc, if_true, ih true hd]
  exact hfrom false t h

end Log
end Uci
