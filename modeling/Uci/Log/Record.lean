import Uci.Log.Plain

/-!
# Log records

What a run tells about itself. A record has a level, the part of the program that
speaks, and a message; a filter lets through what is at least as grave as its
level.

* `Level`, `Filter`, `Filter.named?` — levels, and filters by name.
* `Part` — who speaks.
* `Record`, `Record.written` — a record, and the line that is written for it.
-/

namespace Uci
namespace Log

/-- **Level** of a record, the gravest first. -/
inductive Level where
  | error
  | warn
  | info
  | debug
  | trace
  deriving DecidableEq, Repr

namespace Level

/-- How much a level lets through: the graver, the less. -/
def rank : Level → Nat
  | error => 1
  | warn => 2
  | info => 3
  | debug => 4
  | trace => 5

/-- The level as a line of the log shows it, padded to five characters. -/
def label : Level → String
  | error => "ERROR"
  | warn => "WARN "
  | info => "INFO "
  | debug => "DEBUG"
  | trace => "TRACE"

end Level

/-- **Filter**: lets no record through, or all records up to a level. -/
inductive Filter where
  | off
  | upTo (level : Level)
  deriving DecidableEq, Repr

namespace Filter

/-- Every filter and its name. -/
def names : List (Text × Filter) :=
  [("off".toList, off), ("error".toList, upTo .error), ("warn".toList, upTo .warn),
    ("info".toList, upTo .info), ("debug".toList, upTo .debug), ("trace".toList, upTo .trace)]

/-- The filter of a name, in any mixture of small and capital ASCII letters. -/
def named? (name : Text) : Option Filter := names.lookup (name.map Char.toLower)

/-- Whether a record of level `l` is let through. -/
def admits : Filter → Level → Bool
  | off, _ => false
  | upTo m, l => l.rank ≤ m.rank

end Filter

/-- **Part** of the program that writes to the log. -/
inductive Part where
  | program
  | commands
  | document
  | naming
  | walk
  | lookup
  | replay
  | files
  | values
  deriving DecidableEq, Repr

/-- The part as a line of the log names it. -/
def Part.label : Part → String
  | program => "uci2"
  | commands => "uci2::commands"
  | document => "uci2_engine::document"
  | naming => "uci2_engine::document::merge"
  | walk => "uci2_engine::document::iter"
  | lookup => "uci2_engine::query"
  | replay => "uci2_engine::bridge::parse"
  | files => "uci2_engine::io"
  | values => "uci2_engine::value"

/-- **Record**: one message to the log. -/
structure Record where
  level : Level
  part : Part
  message : String
  deriving DecidableEq, Repr

namespace Record

/-- A message with all lines but its first set in. -/
def setIn (message : Text) : Text :=
  message.flatMap fun c => if c = '\n' then "\n    ".toList else [c]

/-- The line of the log for a record, which can be broken. -/
def line (r : Record) : Text :=
  s!"[{r.level.label} {r.part.label}] ".toList ++ setIn r.message.toList ++ ['\n']

/-- What is written for a record: what is left of its line. -/
def written (r : Record) : Text := plain r.line

end Record

/-- The records that a filter lets through, in their order. -/
def Filter.apply (f : Filter) (records : List Record) : List Record :=
  records.filter fun r => f.admits r.level

@[simp] theorem Filter.apply_append (f : Filter) (r s : List Record) :
    f.apply (r ++ s) = f.apply r ++ f.apply s := by
  simp [Filter.apply]

end Log
end Uci
