import Perimeter.Interval.Membership
import Perimeter.Text.Numeral

/-!
Sets of ports, and their text: each range as its bounds or its one port, and a
single word for all ports.
-/

namespace Perimeter

/-- The greatest port. -/
abbrev lastPort : Nat := 65535

abbrev PortSet := IntervalSet lastPort

/-- The bounds of a run of ports as configured; they may stand in either order. -/
structure PortRange where
  lo : UInt16
  hi : UInt16
deriving DecidableEq

namespace PortRange

/-- Every port. -/
def all : PortRange := ⟨0, 65535⟩

def isValid (r : PortRange) : Bool := r.lo ≤ r.hi

/-- The ports of the range; none, if its bounds are out of order. -/
def ports (r : PortRange) : PortSet := .ofBounds [(r.lo.toNat, r.hi.toNat)]

end PortRange

namespace PortSet

/-- One port as its number, more as the first and the last around a hyphen. -/
def rangeText (r : Range lastPort) : String :=
  if r.lo = r.hi then Text.decimal r.lo else Text.decimal r.lo ++ "-" ++ Text.decimal r.hi

/-- The ranges of a set in order; all ports are the one word `any`. -/
def texts (ports : PortSet) : List String :=
  if ports.isFull then ["any"] else ports.ranges.map rangeText

end PortSet

end Perimeter
