import Perimeter.Interval.Set
import Perimeter.Network.Cover

/-!
Sets of addresses of both families. An address belongs to such a set when its
number belongs to the interval set of its own family.
-/

namespace Perimeter

/-- A set of addresses, one interval set for each family. -/
structure NetworkSet where
  v4 : IntervalSet Family.v4.top
  v6 : IntervalSet Family.v6.top
deriving DecidableEq

namespace NetworkSet

def empty : NetworkSet := ⟨.empty, .empty⟩

/-- Every address of both families. -/
def any : NetworkSet := ⟨.full, .full⟩

/-- The addresses of one network. -/
def ofNetwork (n : Network) : NetworkSet :=
  match n.address.family with
  | .v4 => ⟨.ofBounds [(n.first, n.last)], .empty⟩
  | .v6 => ⟨.empty, .ofBounds [(n.first, n.last)]⟩

def contains (s : NetworkSet) (a : Address) : Bool :=
  match a.family with
  | .v4 => s.v4.contains a.value
  | .v6 => s.v6.contains a.value

def isEmpty (s : NetworkSet) : Bool := s.v4.isEmpty && s.v6.isEmpty

def isAny (s : NetworkSet) : Bool := s.v4.isFull && s.v6.isFull

/-- The number of maximal ranges in both families together. -/
def rangeCount (s : NetworkSet) : Nat := s.v4.ranges.length + s.v6.ranges.length

def union (s t : NetworkSet) : NetworkSet := ⟨s.v4.union t.v4, s.v6.union t.v6⟩

def intersect (s t : NetworkSet) : NetworkSet := ⟨s.v4.intersect t.v4, s.v6.intersect t.v6⟩

def subtract (s t : NetworkSet) : NetworkSet := ⟨s.v4.subtract t.v4, s.v6.subtract t.v6⟩

/-- The addresses of any of the networks. -/
def ofNetworks (ns : List Network) : NetworkSet := (ns.map ofNetwork).foldr union empty

/-- The set as networks, version four first, ascending. -/
def toNetworks (s : NetworkSet) : List Network :=
  s.v4.ranges.flatMap (Network.cover .v4) ++ s.v6.ranges.flatMap (Network.cover .v6)

end NetworkSet

end Perimeter
