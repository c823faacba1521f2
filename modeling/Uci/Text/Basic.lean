/-!
# Text

Configuration text, and every name and value taken from it, is a list of
characters: the form in which a reader walks over it and in which a statement
about it is made. Positions inside a source are counted in bytes of UTF-8, so
the size of a text is the sum of the sizes of its characters.

* `Text`, `Text.str` — text, and the same as a string for a message.
* `Text.size` — number of bytes; additive over `++`.
* `Text.prefixOfSize?` — the prefix of a given number of bytes, if a character
  ends there.
-/

namespace Uci

/-- **Text**: a list of characters. -/
abbrev Text := List Char

namespace Text

/-- The text as a string, as messages and terminals take it. -/
def str (t : Text) : String := String.ofList t

/-- Number of bytes the text takes in UTF-8. -/
def size (t : Text) : Nat := (t.map Char.utf8Size).foldr (· + ·) 0

@[simp] theorem size_nil : size [] = 0 := rfl

@[simp] theorem size_cons (c : Char) (t : Text) : size (c :: t) = c.utf8Size + size t := rfl

@[simp] theorem size_append (s t : Text) : size (s ++ t) = size s + size t := by
  induction s with
  | nil => simp
  | cons c s ih => rw [List.cons_append, size_cons, size_cons, ih, Nat.add_assoc]

/-- Every character takes at least one byte, so only the empty text has size `0`. -/
theorem length_le_size (t : Text) : t.length ≤ t.size := by
  induction t with
  | nil => simp
  | cons c t ih =>
    have := c.utf8Size_pos
    simp only [List.length_cons, size_cons]
    omega

/-- The prefix of exactly `n` bytes, if one ends between two characters. -/
def prefixOfSize? : Text → Nat → Option Text
  | _, 0 => some []
  | [], _ + 1 => none
  | c :: t, n + 1 =>
    if c.utf8Size ≤ n + 1 then (prefixOfSize? t (n + 1 - c.utf8Size)).map (c :: ·) else none

@[simp] theorem prefixOfSize?_zero (t : Text) : prefixOfSize? t 0 = some [] := by
  cases t <;> rfl

/-- The prefix that a text forms in front of another one is found by its size. -/
theorem prefixOfSize?_append (s t : Text) : prefixOfSize? (s ++ t) (size s) = some s := by
  induction s with
  | nil => simp
  | cons c s ih =>
    have hc := c.utf8Size_pos
    obtain ⟨n, hn⟩ : ∃ n, (size (c :: s)) = n + 1 :=
      ⟨size (c :: s) - 1, by simp only [size_cons]; omega⟩
    have hle : c.utf8Size ≤ n + 1 := by rw [← hn]; simp
    have hsub : n + 1 - c.utf8Size = size s := by rw [← hn]; simp
    rw [hn, List.cons_append, prefixOfSize?, if_pos hle, hsub, ih]
    rfl

end Text

end Uci
