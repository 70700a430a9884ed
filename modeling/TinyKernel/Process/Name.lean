/-!
# Process names

A process keeps at most 32 bytes of its name, in UTF-8.  A longer name is cut between two
characters, and the cut is at the first character that does not fit: a shorter one behind it is not
squeezed in.
-/

namespace TinyKernel

/-- Bytes of a process name that are kept.  They are bytes and not characters, because the room in a
process record is fixed. -/
def processNameBytes : Nat := 32

/-- The characters up to the first that does not fit into `room` bytes.  A shorter character behind
that one is not taken, even if it would fit. -/
def fittingChars (room : Nat) : List Char → List Char
  | [] => []
  | c :: rest => if c.utf8Size ≤ room then c :: fittingChars (room - c.utf8Size) rest else []

/-- **The part of a name that is kept**: as many whole characters as fit, so that a name that is cut
off is still text.  At most three bytes of the room are lost in this way. -/
def keptName (name : String) : String := String.ofList (fittingChars processNameBytes name.toList)

example : keptName "a name of thirty-two bytes, fits" = "a name of thirty-two bytes, fits" := by
  decide +kernel

-- the two bytes of the last letter do not fit, and the one of the full stop is not squeezed in
example : keptName "a name of thirty-one bytes thené." = "a name of thirty-one bytes then" := by
  decide +kernel

end TinyKernel
