import Uci.Browser.App

/-!
# The screen of the browser

The screen has two boxes side by side, three tenths and seven tenths of its width, and
a line of help below them. The left box lists the sections, the right one shows what
the chosen section holds. Lines that are too long are cut.

* `Screen` — the characters of a screen, and the cells that are marked.
* `App.draw` — the screen of a browser, and how far its list is scrolled.
-/

namespace Uci
namespace Browser

/-- **Screen**: its rows, and where cells are marked: row, first and last column. -/
structure Screen where
  rows : List Text
  marked : List (Nat × Nat × Nat) := []
  deriving DecidableEq, Repr

/-- The line of help. -/
def help : Text := "q: Quit | ↑/k: Previous | ↓/j: Next".toList

/-- What stands beside a document without sections. -/
def nothing : Text := "No sections".toList

/-- A text cut or filled with `c` to a width. -/
def fit (c : Char) (width : Nat) (t : Text) : Text :=
  t.take width ++ List.replicate (width - t.length) c

@[simp] theorem length_fit (c : Char) (width : Nat) (t : Text) : (fit c width t).length = width := by
  simp only [fit, List.length_append, List.length_take, List.length_replicate]
  omega

/-- A box of a width and a height, both at least two: a title in its upper border, and
lines inside. -/
def box (width height : Nat) (title : Text) (lines : List Text) : List Text :=
  let inside := (lines.take (height - 2)).map (fit ' ' (width - 2))
  let rest := List.replicate (height - 2 - lines.length) (List.replicate (width - 2) ' ')
  ('┌' :: fit '─' (width - 2) title ++ ['┐']) ::
    (inside ++ rest).map (fun l => '│' :: l ++ ['│']) ++
    ['└' :: List.replicate (width - 2) '─' ++ ['┘']]

/-- How far a list of `height` rows is scrolled to show the chosen place: no further
than needed from where it was. -/
def scroll (height : Nat) (selected : Option Nat) (offset : Nat) : Nat :=
  match selected with
  | none => offset
  | some i => if i < offset then i else max offset (i + 1 - height)

/-- The chosen place is shown. -/
theorem scroll_spec {height i : Nat} (hh : 0 < height) (offset : Nat) :
    scroll height (some i) offset ≤ i ∧ i < scroll height (some i) offset + height := by
  simp only [scroll]
  split <;> omega

/-- **The screen of a browser** on a terminal of a size, if its list was scrolled by
`offset`, and how far it is scrolled now. -/
def App.draw (a : App) (width height offset : Nat) : Screen × Nat :=
  let left := width * 3 / 10
  let tall := height - 1
  let offset := scroll (tall - 2) a.selected offset
  let content := if a.content.isEmpty then [nothing] else a.content
  let boxes := List.zipWith (· ++ ·) (box left tall a.title (a.titles.drop offset))
    (box (width - left) tall "Section".toList content)
  let marked := a.selected.map fun i => (i - offset + 1, 1, left - 2)
  ({ rows := boxes ++ [fit ' ' width help], marked := marked.toList }, offset)

end Browser
end Uci
