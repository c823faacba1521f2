import Uci.Text.Basic

/-!
# Lines and columns

A position is a line and a column, both counted from `1`. Lines end at line
feeds only, and a column counts characters. The position of an offset is the
position of the text that stands before it: an offset past the end counts as
the end, and an offset inside a character as the end, too.
-/

namespace Uci

/-- A place in a source as a person counts it, both numbers from `1`. -/
structure Position where
  line : Nat
  column : Nat
  deriving DecidableEq, Repr, Inhabited

namespace Position

/-- The position right behind `before`: one line more than its line feeds, one
column more than the characters since the last of them. -/
def after (before : Text) : Position where
  line := before.count '\n' + 1
  column := (before.reverse.takeWhile (· ≠ '\n')).length + 1

@[simp] theorem after_nil : after [] = ⟨1, 1⟩ := rfl

/-- The position of the byte offset `offset` in `source`. -/
def ofOffset (source : Text) (offset : Nat) : Position :=
  after ((source.prefixOfSize? (min offset source.size)).getD source)

/-- Between two characters the position is that of the text in front. -/
theorem ofOffset_append (s t : Text) : ofOffset (s ++ t) s.size = after s := by
  have h : min s.size (s ++ t).size = s.size := by simp
  rw [ofOffset, h, Text.prefixOfSize?_append, Option.getD_some]

end Position
end Uci
