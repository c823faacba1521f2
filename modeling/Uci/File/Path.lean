import Uci.Text.Basic

/-!
# Paths

A path is text whose pieces are separated by slashes. Empty pieces and single dots
lead nowhere, save that a dot may open a path; they are passed over when the last
piece of a path is asked for.

* `Path.join` — a path below a directory.
* `Path.fileName?` — the last piece.
* `Path.parent?` — the path without it.
-/

namespace Uci

/-- **Path** of a file or a directory. -/
abbrev Path := Text

namespace Path

/-- Whether a path begins at the top. -/
def isAbsolute (p : Path) : Bool := p.head? = some '/'

/-- A path below the directory `dir`; an absolute path stays as it is. -/
def join (dir p : Path) : Path :=
  if isAbsolute p then p
  else if dir.isEmpty || dir.getLast? = some '/' then dir ++ p
  else dir ++ '/' :: p

/-- The pieces of a path, empty ones included. -/
def pieces : Text → List Text
  | [] => [[]]
  | c :: t =>
    if c = '/' then [] :: pieces t
    else
      match pieces t with
      | [] => [[c]]
      | p :: ps => (c :: p) :: ps

/-- Pieces as a path again. -/
def ofPieces (ps : List Text) : Path := ['/'].intercalate ps

/-- A piece that leads nowhere. -/
def isIdle (piece : Text) : Bool := piece = [] || piece = ['.']

/-- The pieces without the idle ones at their end. -/
def trimEnd (ps : List Text) : List Text := (ps.reverse.dropWhile isIdle).reverse

/-- What a path opens with, a slash or a lone dot, and the rest of it. -/
def opening : Path → Text × Text
  | '/' :: t => (['/'], t)
  | '.' :: '/' :: t => (['.'], '/' :: t)
  | ['.'] => (['.'], [])
  | p => ([], p)

/-- The pieces behind the opening, up to the last one that leads somewhere. -/
def body (p : Path) : List Text := trimEnd (pieces (opening p).2)

/-- The last piece of a path, unless it leads upwards. -/
def fileName? (p : Path) : Option Text := (body p).getLast?.filter (· ≠ ['.', '.'])

/-- **The path without its last piece.** The top has no parent, and neither has the
empty path. -/
def parent? (p : Path) : Option Path :=
  if (body p).isEmpty then if (opening p).1 = ['.'] then some [] else none
  else some ((opening p).1 ++ ofPieces (trimEnd (body p).dropLast))

theorem pieces_ne_nil (t : Text) : pieces t ≠ [] := by
  cases t with
  | nil => simp [pieces]
  | cons c t =>
    simp only [pieces]
    split
    · simp
    · split <;> simp

@[simp] theorem ofPieces_nil_cons (p : Text) (ps : List Text) :
    ofPieces ([] :: p :: ps) = '/' :: ofPieces (p :: ps) := by
  simp [ofPieces, List.intercalate]

@[simp] theorem ofPieces_cons_cons (c : Char) (p : Text) (ps : List Text) :
    ofPieces ((c :: p) :: ps) = c :: ofPieces (p :: ps) := by
  cases ps <;> simp [ofPieces, List.intercalate]

/-- Nothing is lost between the slashes. -/
theorem ofPieces_pieces (t : Text) : ofPieces (pieces t) = t := by
  induction t with
  | nil => rfl
  | cons c t ih =>
    simp only [pieces]
    cases hp : pieces t with
    | nil => exact absurd hp (pieces_ne_nil t)
    | cons p ps =>
      rw [hp] at ih
      split
      · next h => rw [ofPieces_nil_cons, ih, h]
      · rw [ofPieces_cons_cons, ih]

end Path

/-- The name under which a configuration is listed: the last piece of its path, or the
whole of it if there is none. -/
def packageLabel (config : Path) : Text := config.fileName?.getD config

end Uci
