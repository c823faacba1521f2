/-!
# The version

The version of the library and of the program, in the two forms in which it is asked
for.
-/

namespace Uci
namespace Version

/-- Incompatible changes so far. -/
def major : Nat := 2

/-- Additions since then. -/
def minor : Nat := 0

/-- Repairs since then. -/
def patch : Nat := 0

/-- The version as it is printed. -/
def text : String := s!"{major}.{minor}.{patch}"

/-- The version as one number, a byte for each of its last two parts. -/
def number : Nat := major * 0x10000 + minor * 0x100 + patch

end Version
end Uci
