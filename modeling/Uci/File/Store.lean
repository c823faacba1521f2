import Uci.File.System
import Uci.Text.Utf8

/-!
# A file system in memory

A store is a tree of directories and files, held as a table from locations to what is
there. A location is the list of names on the way down from the top; the top itself
is always a directory. A path is followed piece by piece, and every piece but the
last has to lead to a directory.

* `Store`, `Store.get?`, `Store.put`, `Store.erase` — the table.
* `Store.follow` — the location a path leads to.
* The instance of `FileSystem` — its operations on a store.
-/

namespace Uci

/-- What a file holds: text, or bytes that are none. -/
inductive Contents where
  | text (t : Text)
  | bytes (b : List UInt8)
  deriving DecidableEq, Repr

namespace Contents

/-- Bytes as the contents of a file. -/
def ofBytes (b : List UInt8) : Contents :=
  match Utf8.decode? b with
  | some t => text t
  | none => bytes b

/-- The contents as text, if need be with U+FFFD for what is none. -/
def toText : Contents → Text
  | text t => t
  | bytes b => Utf8.decodeLossy b

end Contents

/-- What is at a location. -/
inductive FileEntry where
  | directory
  | file (contents : Contents)
  deriving DecidableEq, Repr

/-- The kind of an entry. -/
def FileEntry.kind : FileEntry → FileKind
  | directory => .directory
  | file _ => .file

/-- **Location**: the names on the way down from the top. -/
abbrev Location := List Text

/-- **Store**: a file system in memory, and the directory where relative paths
begin. -/
structure Store where
  entries : List (Location × FileEntry) := []
  here : Location := []
  deriving DecidableEq, Repr

namespace Store

/-- What is at a location. -/
def get? (s : Store) : Location → Option FileEntry
  | [] => some .directory
  | l => s.entries.lookup l

/-- Puts an entry at a location, in the place of the one that was there. -/
def put (s : Store) (l : Location) (e : FileEntry) : Store :=
  { s with entries := (l, e) :: s.entries.filter fun (k, _) => k ≠ l }

/-- Takes away what is at a location. -/
def erase (s : Store) (l : Location) : Store :=
  { s with entries := s.entries.filter fun (k, _) => k ≠ l }

/-- Everything below a directory, by the way from there. -/
def below (s : Store) (dir : Location) : List (Location × FileEntry) :=
  s.entries.filterMap fun (k, e) =>
    match dir.isPrefixOf? k with
    | some [] | none => none
    | some rest => some (rest, e)

/-! ### Following a path -/

/-- Names of more bytes are refused. -/
def maxNameSize : Nat := 255

/-- Paths of more bytes are refused, whatever they lead to. -/
def maxPathSize : Nat := 4095

/-- One step along a path. -/
def step (s : Store) (l : Location) (piece : Text) : Except FileReason Location :=
  match s.get? l with
  | none => .error .notFound
  | some (.file _) => .error .notADirectory
  | some .directory =>
    if Path.isIdle piece then .ok l
    else if piece = ['.', '.'] then .ok l.dropLast
    else if maxNameSize < Text.size piece then .error .nameTooLong
    else .ok (l ++ [piece])

/-- Where a path begins, and the pieces to follow from there. -/
def start (s : Store) (p : Path) : Except FileReason (Location × List Text) :=
  if p.contains '\x00' then .error .nulInName
  else if p.isEmpty then .error .notFound
  else if maxPathSize < Text.size p then .error .nameTooLong
  else .ok (if p.isAbsolute then [] else s.here, Path.pieces p)

/-- **The location a path leads to**, whether or not something is there. -/
def follow (s : Store) (p : Path) : Except FileReason Location := do
  let (l, pieces) ← s.start p
  pieces.foldlM s.step l

/-- What a path leads to. -/
def entry (s : Store) (p : Path) : Except FileReason FileEntry := do
  let l ← s.follow p
  match s.get? l with
  | some e => .ok e
  | none => .error .notFound

/-- The directory in which the last piece of a path is, that piece, and whether a slash
follows it. -/
def followToLast (s : Store) (p : Path) : Except FileReason (Location × Text × Bool) := do
  let (l, pieces) ← s.start p
  let kept := (pieces.reverse.dropWhile List.isEmpty).reverse
  let dir ← kept.dropLast.foldlM s.step l
  -- The directory itself has to be one, also where no piece is left.
  let dir ← s.step dir []
  return (dir, kept.getLast?.getD ['.'], kept.length < pieces.length)

/-- Whether a piece names an entry of its own in a directory. -/
def isName (piece : Text) : Bool := !Path.isIdle piece && piece ≠ ['.', '.']

/-! ### Operations -/

/-- The text of a file. -/
def readText (s : Store) (p : Path) : Except FileReason Text := do
  match ← s.entry p with
  | .file (.text t) => .ok t
  | .file (.bytes _) => .error .notText
  | .directory => .error .isADirectory

/-- Gives a file the text. A path that ends in a slash names no file. -/
def writeText (s : Store) (p : Path) (t : Text) : Except FileReason Store := do
  let (dir, piece, slash) ← s.followToLast p
  if !isName piece || slash then .error .isADirectory
  else
    let l ← s.step dir piece
    match s.get? l with
    | some .directory => .error .isADirectory
    | _ => .ok (s.put l (.file (.text t)))

/-- Makes a directory where nothing is. -/
def makeDirectory (s : Store) (p : Path) : Except FileReason Store := do
  let (dir, piece, _) ← s.followToLast p
  if !isName piece then .error .exists
  else
    let l ← s.step dir piece
    match s.get? l with
    | some _ => .error .exists
    | none => .ok (s.put l .directory)

/-- Removes a file. -/
def removeFile (s : Store) (p : Path) : Except FileReason Store := do
  let (dir, piece, slash) ← s.followToLast p
  if !isName piece then .error .isADirectory
  else
    let l ← s.step dir piece
    match s.get? l with
    | none => .error .notFound
    | some .directory => .error .isADirectory
    | some (.file _) => if slash then .error .notADirectory else .ok (s.erase l)

/-- A change of a store; a change that is declined leaves it as it was. -/
def changing (change : Store → Except FileReason Store) : StateM Store (Except FileReason Unit) :=
  fun s =>
    match change s with
    | .ok s' => (.ok (), s')
    | .error r => (.error r, s)

instance : FileSystem (StateM Store) where
  kind p := fun s => ((s.entry p).map FileEntry.kind, s)
  readText p := fun s => (s.readText p, s)
  writeText p t := changing (·.writeText p t)
  makeDirectory p := changing (·.makeDirectory p)
  removeFile p := changing (·.removeFile p)

/-- Entries at other locations do not matter to a look-up. -/
theorem lookup_filter_ne {k l : Location} (h : k ≠ l) (es : List (Location × FileEntry)) :
    (es.filter fun (j, _) => j ≠ l).lookup k = es.lookup k := by
  induction es with
  | nil => rfl
  | cons p es ih =>
    obtain ⟨j, e⟩ := p
    by_cases hj : j = l
    · have hk : (k == j) = false := by simp [hj, h]
      rw [List.filter_cons_of_neg (by simp [hj]), ih, List.lookup_cons, hk]
    · rw [List.filter_cons_of_pos (by simp [hj]), List.lookup_cons, List.lookup_cons, ih]

/-- Putting an entry somewhere changes what is there, and nothing else. -/
theorem get?_put (s : Store) {l : Location} (hl : l ≠ []) (e : FileEntry) (k : Location) :
    (s.put l e).get? k = if k = l then some e else s.get? k := by
  cases k with
  | nil => simp [get?, hl.symm]
  | cons n k =>
    by_cases h : n :: k = l
    · simp [get?, put, h]
    · have hb : ((n :: k) == l) = false := by simpa using h
      simp only [get?, put, List.lookup_cons, hb, if_neg h]
      exact lookup_filter_ne h s.entries

/-- Taking away what is at one location changes no other. -/
theorem get?_erase_of_ne (s : Store) {k l : Location} (h : k ≠ l) :
    (s.erase l).get? k = s.get? k := by
  cases k with
  | nil => rfl
  | cons n k => exact lookup_filter_ne h s.entries

end Store
end Uci
