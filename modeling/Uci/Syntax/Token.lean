import Uci.Syntax.Kind
import Uci.Text.Blank

/-!
# Tokens

A source is cut into tokens from left to right, each the longest text that one
of the token patterns allows there. Nothing is dropped: what no pattern allows
becomes a token of kind `unknown`, so the tokens of a source, put together
again, are the source.

* `Token.first` — the first token of a text that is not empty, and the rest.
* `Token.ofText` — all tokens of a text; `texts_ofText` says that none is lost.
* `Token.spans` — the tokens with the bytes they stand on.
* `isWord` — texts that form one bare word, which need no quotes.
-/

namespace Uci
namespace Syntax

/-- **Token**: a kind and the text it stands for. -/
structure Token where
  kind : Kind
  text : Text
  deriving DecidableEq, Repr, Inhabited

/-- Space and tab, which separate the pieces of a line. -/
def isSpacing (c : Char) : Bool := c = ' ' || c = '\t'

/-- Characters that may stand in a bare word behind its first one. -/
def isWordChar (c : Char) : Bool :=
  !Text.isBlank c && c ≠ '\'' && c ≠ '"' && c ≠ '\\'

/-- Characters a bare word may begin with: a `#` would begin a comment. -/
def isWordStart (c : Char) : Bool := isWordChar c && c ≠ '#'

/-- Splits off what may stand inside double quotes: every character that is
neither a double quote nor a backslash, and a backslash together with the
character behind it. -/
def splitEscaped : Text → Text × Text
  | [] => ([], [])
  | c :: t =>
    if c = '"' then ([], c :: t)
    else if c = '\\' then
      match t with
      | [] => ([], [c])
      | d :: t =>
        let (inside, after) := splitEscaped t
        (c :: d :: inside, after)
    else
      let (inside, after) := splitEscaped t
      (c :: inside, after)

namespace Token

/-- The first token of `c :: t`, and what is left behind it.

A quote that is never closed takes everything to the end of the text, except for
one backslash at the very end of a double quoted text, which escapes nothing. -/
def first (c : Char) (t : Text) : Token × Text :=
  if isSpacing c then
    (⟨.whitespace, c :: t.takeWhile isSpacing⟩, t.dropWhile isSpacing)
  else if c = '\n' then (⟨.newline, [c]⟩, t)
  else if c = '\r' then
    match t with
    | d :: t => if d = '\n' then (⟨.newline, [c, d]⟩, t) else (⟨.unknown, [c]⟩, d :: t)
    | [] => (⟨.unknown, [c]⟩, [])
  else if c = '#' then
    (⟨.comment, c :: t.takeWhile fun d => d ≠ '\r' && d ≠ '\n'⟩,
      t.dropWhile fun d => d ≠ '\r' && d ≠ '\n')
  else if c = '\'' then
    match t.dropWhile (· ≠ '\'') with
    | q :: after => (⟨.singleQuoted, c :: t.takeWhile (· ≠ '\'') ++ [q]⟩, after)
    | [] => (⟨.unknown, c :: t⟩, [])
  else if c = '"' then
    match splitEscaped t with
    | (inside, []) => (⟨.unknown, c :: inside⟩, [])
    | (inside, q :: after) =>
      if q = '"' then (⟨.doubleQuoted, c :: inside ++ [q]⟩, after)
      else (⟨.unknown, c :: inside⟩, q :: after)
  else if isWordStart c then
    (⟨.word, c :: t.takeWhile isWordChar⟩, t.dropWhile isWordChar)
  else (⟨.unknown, [c]⟩, t)

end Token

theorem splitEscaped_append (t : Text) : (splitEscaped t).1 ++ (splitEscaped t).2 = t := by
  fun_induction splitEscaped t <;> simp_all

namespace Token

/-- No character is lost between the first token and the rest. -/
theorem first_append (c : Char) (t : Text) : (first c t).1.text ++ (first c t).2 = c :: t := by
  unfold first
  split
  · simp
  split
  · simp
  split
  · split
    · split <;> simp
    · simp
  split
  · simp
  split
  · split
    · next q after h =>
      have := List.takeWhile_append_dropWhile (p := (· ≠ '\'')) (l := t)
      rw [h] at this
      simpa using this
    · simp
  split
  · have := splitEscaped_append t
    split
    · next inside h => rw [h] at this; simpa using this
    · next inside q after h =>
      rw [h] at this
      split <;> simpa using this
  split <;> simp

/-- A token holds at least one character. -/
theorem first_text_ne_nil (c : Char) (t : Text) : (first c t).1.text ≠ [] := by
  unfold first
  repeat' split
  all_goals simp

/-- A text that begins like a bare word begins with one. -/
theorem first_of_isWordStart {c : Char} (h : isWordStart c = true) (t : Text) :
    first c t = (⟨.word, c :: t.takeWhile isWordChar⟩, t.dropWhile isWordChar) := by
  have hne : ∀ d : Char, isWordStart d = false → c ≠ d := by
    rintro d hd rfl
    rw [h] at hd
    exact Bool.noConfusion hd
  have hs : isSpacing c = false := by
    simp only [isSpacing, Bool.or_eq_false_iff, decide_eq_false_iff_not]
    exact ⟨hne _ (by decide), hne _ (by decide)⟩
  unfold first
  rw [if_neg (by simp [hs]), if_neg (hne _ (by decide)), if_neg (hne _ (by decide)),
    if_neg (hne _ (by decide)), if_neg (hne _ (by decide)), if_neg (hne _ (by decide)), if_pos h]

/-- Only a text that begins like a bare word begins with one. -/
theorem first_kind_ne_word {c : Char} (h : ¬isWordStart c = true) (t : Text) :
    (first c t).1.kind ≠ .word := by
  unfold first
  repeat' split
  all_goals simp_all

/-- What is left behind the first token is shorter. -/
theorem length_first_lt (c : Char) (t : Text) : (first c t).2.length < (c :: t).length := by
  have h := congrArg List.length (first_append c t)
  have hpos := List.length_pos_iff.mpr (first_text_ne_nil c t)
  simp only [List.length_append] at h
  omega

/-- **Tokens of a text**, from left to right. -/
def ofText : Text → List Token
  | [] => []
  | c :: t => (first c t).1 :: ofText (first c t).2
termination_by t => t.length
decreasing_by exact length_first_lt c t

@[simp] theorem ofText_nil : ofText [] = [] := by rw [ofText]

theorem ofText_cons (c : Char) (t : Text) :
    ofText (c :: t) = (first c t).1 :: ofText (first c t).2 := by rw [ofText]

/-- The tokens, put together again, are the text. -/
theorem texts_ofText (t : Text) : (ofText t).flatMap Token.text = t := by
  induction t using ofText.induct with
  | case1 => simp
  | case2 c t ih => rw [ofText_cons, List.flatMap_cons, ih, first_append]

/-- The tokens with the offsets of their first byte and of the byte behind them,
the first token standing at `offset`. -/
def spans : Nat → List Token → List (Token × Nat × Nat)
  | _, [] => []
  | offset, t :: ts =>
    (t, offset, offset + t.text.size) :: spans (offset + t.text.size) ts

end Token

/-- **Bare word**: a text that is read as a single word, so that it can be
written without quotes and read back unchanged. -/
def isWord : Text → Bool
  | [] => false
  | c :: t => (Token.first c t).1.kind = .word && (Token.first c t).2 = []

/-- A bare word begins like one, and goes on like one. -/
theorem isWord_cons (c : Char) (t : Text) :
    isWord (c :: t) = (isWordStart c && t.all isWordChar) := by
  by_cases h : isWordStart c = true
  · have key : t.dropWhile isWordChar = [] ↔ t.all isWordChar = true := by
      induction t with
      | nil => simp
      | cons d t ih => by_cases hd : isWordChar d = true <;> simp_all
    rw [isWord, Token.first_of_isWordStart h, h, Bool.true_and]
    simp only [key, decide_true, Bool.true_and, Bool.decide_eq_true]
  · simp [isWord, Token.first_kind_ne_word h, h]

end Syntax
end Uci
