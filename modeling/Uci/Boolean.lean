import Uci.Text.Basic

/-!
# Truth values

The spellings in which configuration tools write a truth value. They are matched
exactly, letter case and space included.
-/

namespace Uci

/-- The spellings of `true`. -/
def trueSpellings : List Text :=
  ["1".toList, "yes".toList, "on".toList, "true".toList, "enabled".toList]

/-- The spellings of `false`. -/
def falseSpellings : List Text :=
  ["0".toList, "no".toList, "off".toList, "false".toList, "disabled".toList]

/-- Reads a truth value. -/
def readBoolean? (t : Text) : Option Bool :=
  if t ∈ trueSpellings then some true
  else if t ∈ falseSpellings then some false
  else none

end Uci
