import Uci.Browser.Session
import Uci.Text.Utf8
import Uci.Tool.Run

/-!
# The program

The outer layer: the files, the environment and the terminal of a machine. What is done
with them is decided in `Uci.Tool.Run` and `Uci.Browser`.

* The instance of `FileSystem` for `IO`.
* `browse` — a session of the browser on the terminal.
* `main` — the program.
-/

namespace Uci
namespace Machine

/-- The reason for a number of the system, or else the system's own words. -/
def reasonOfCode (code : UInt32) (e : IO.Error) : FileReason :=
  if code = 2 then .notFound
  else if code = 17 then .exists
  else if code = 20 then .notADirectory
  else if code = 21 then .isADirectory
  else if code = 36 then .nameTooLong
  else .stated (toString e).toList

/-- The reason for an error of the system. -/
def reason (e : IO.Error) : FileReason :=
  match e with
  | .noFileOrDirectory _ code _ => reasonOfCode code e
  | .alreadyExists _ code _ => reasonOfCode code e
  | .inappropriateType _ code _ => reasonOfCode code e
  | .invalidArgument _ code _ => reasonOfCode code e
  | .otherError code _ => reasonOfCode code e
  | _ => .stated (toString e).toList

/-- A step of the system, with the reason if it is declined. -/
def declined {α : Type} (step : IO α) : IO (Except FileReason α) := do
  match ← step.toBaseIO with
  | .ok a => return .ok a
  | .error e => return .error (reason e)

/-- The contents of a file. -/
def readBytes (p : Path) : IO (Except FileReason (List UInt8)) := do
  match ← declined (IO.FS.readBinFile p.str) with
  | .ok b => return .ok b.toList
  | .error r => return .error r

instance : FileSystem IO where
  kind p := do
    match ← readBytes p with
    | .ok _ => return .ok .file
    | .error .isADirectory => return .ok .directory
    | .error r => return .error r
  readText p := do
    match ← readBytes p with
    | .ok b => return ((Utf8.decode? b).map .ok).getD (.error .notText)
    | .error r => return .error r
  writeText p t := declined (IO.FS.writeFile p.str t.str)
  makeDirectory p := declined (IO.FS.createDir p.str)
  removeFile p := declined (IO.FS.removeFile p.str)

/-- The variables in a block of them, each with a NUL character behind it. -/
def bindings (block : Text) : List (Text × Text) :=
  let entries := (String.ofList block).splitOn "\x00"
  entries.filterMap fun entry =>
    match entry.toList.span (· ≠ '=') with
    | (name, _ :: value) => some (name, value)
    | _ => none

/-- The environment of the program. -/
def environment : IO Environment := do
  match ← readBytes "/proc/self/environ".toList with
  | .ok b => return { bindings := bindings (Utf8.decodeLossy b) }
  | .error _ =>
    let home ← IO.getEnv "HOME"
    return { bindings := home.toList.map fun h => ("HOME".toList, h.toList) }

/-! ### The terminal -/

/-- A number in a variable of the environment. -/
def sizeIn (env : Environment) (name : String) (otherwise : Nat) : Nat :=
  ((env.get? name.toList).bind fun t => t.str.toNat?).getD otherwise

/-- A row of a screen, its marked cells in the colours of the choice. -/
def paintRow (s : Browser.Screen) (i : Nat) (row : Text) : String :=
  match s.marked.find? fun (r, _, _) => r = i with
  | none => row.str
  | some (_, first, last) =>
    Text.str (row.take first) ++ "\x1b[30;43m" ++ Text.str ((row.drop first).take (last + 1 - first)) ++
      "\x1b[0m" ++ Text.str (row.drop (last + 1))

/-- What is written to the terminal for a signal. -/
def paint : Browser.Signal → String
  | .rawOn | .rawOff => ""
  | .enterAlternate => "\x1b[?1049h"
  | .leaveAlternate => "\x1b[?1049l"
  | .captureMouse => "\x1b[?1000h"
  | .releaseMouse => "\x1b[?1000l"
  | .showCursor => "\x1b[?25h"
  | .screen s =>
    "\x1b[2J\x1b[H" ++ "\r\n".intercalate (s.rows.zipIdx.map fun (row, i) => paintRow s i row)

/-- Sends a signal. -/
def send (s : Browser.Signal) : IO Unit := do
  IO.print (paint s)
  (← IO.getStdout).flush

/-- The event for a byte that was read. -/
def eventOf (b : UInt8) : Browser.Event :=
  if b = 0x1b then .key .escape
  else if b = 0x0a || b = 0x0d then .other
  else .key (.char (Char.ofNat b.toNat))

/-- Draws and reads, until a key ends it or nothing more can be read. -/
partial def watch (width height : Nat) (a : Browser.App) (offset : Nat) : IO (Option String) := do
  let (screen, offset) := a.draw width height offset
  send (.screen screen)
  match ((← (← IO.getStdin).read 1).toList).head? with
  | none => return some "no more keys"
  | some b =>
    match a.react (eventOf b) with
    | none => return none
    | some a => watch width height a offset

/-- A session of the browser. -/
def browse (env : Environment) (a : Browser.App) : IO (Option String) := do
  Browser.opening.forM send
  let ended ← watch (sizeIn env "COLUMNS" 80) (sizeIn env "LINES" 24) a 0
  Browser.closing.forM send
  return ended

/-- What a run leaves behind. -/
def finish (o : Tool.Outcome) : IO UInt32 := do
  IO.print o.out.str
  IO.eprint o.err.str
  return o.code.toUInt32

end Machine
end Uci

open Uci in
/-- **The program.** -/
def main (arguments : List String) : IO UInt32 := do
  let env ← Machine.environment
  match ← Tool.run env (arguments.map String.toList) with
  | .over o => Machine.finish o
  | .browsing err a =>
    let ended ← Machine.browse env a
    Machine.finish (Tool.browsed err ended)
