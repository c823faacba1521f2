import Uci.Browser.Screen

/-!
# A session of the browser

A session takes the terminal over, draws a screen before every event it waits for, and
gives the terminal back, whether a key ends it or no more can be read.

* `Signal` — what a session tells the terminal.
* `rounds` — the screens of a session, and how it ends.
* `session` — everything it tells the terminal, from a list of events.
-/

namespace Uci
namespace Browser

/-- **Signal** to a terminal. -/
inductive Signal where
  | rawOn
  | enterAlternate
  | captureMouse
  | screen (s : Screen)
  | rawOff
  | leaveAlternate
  | releaseMouse
  | showCursor
  deriving DecidableEq, Repr

/-- What takes a terminal over. -/
def opening : List Signal := [.rawOn, .enterAlternate, .captureMouse]

/-- What gives it back. -/
def closing : List Signal := [.rawOff, .leaveAlternate, .releaseMouse, .showCursor]

/-- **The screens of a session** on a terminal of a size, one before every event, and
whether a key ended it. -/
def rounds (width height : Nat) (a : App) (offset : Nat) : List Event → List Screen × Bool
  | [] => ([(a.draw width height offset).1], false)
  | e :: events =>
    match a.react e with
    | none => ([(a.draw width height offset).1], true)
    | some b =>
      let (screens, quit) := rounds width height b (a.draw width height offset).2 events
      ((a.draw width height offset).1 :: screens, quit)

/-- **What a session tells the terminal**, and whether a key ended it. -/
def session (width height : Nat) (a : App) (events : List Event) : List Signal × Bool :=
  let (screens, quit) := rounds width height a 0 events
  (opening ++ screens.map .screen ++ closing, quit)

end Browser
end Uci
