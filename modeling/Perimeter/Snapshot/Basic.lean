import Perimeter.Book.Basic
import Perimeter.Rule.Basic
import Perimeter.Uuid
import Perimeter.Zone

/-!
Snapshots: what one run of the collecting tool knows of a set of devices, with
every book that their rules may name.
-/

namespace Perimeter

/-- An interface and the addresses configured on it. -/
structure Interface where
  name : String
  addresses : List Network
deriving DecidableEq

/-- A traffic boundary on a device: the interfaces it lists and, where there is
one, the book of the addresses behind it. -/
structure Zone where
  name : String
  interfaces : List String
  addressBook : Option String
deriving DecidableEq

/-- A configured route. -/
structure Route where
  destination : Network
  nextHop : Option Address
  interface : Option String
deriving DecidableEq

/-- A declared link from a zone to a zone of another device. -/
structure Adjacency where
  zone : String
  peerDevice : String
  peerZone : String
  bidirectional : Bool
deriving DecidableEq

structure Device where
  id : String
  interfaces : List Interface
  zones : List Zone
  ruleSets : List RuleSet
  routes : List Route
  adjacencies : List Adjacency
deriving DecidableEq

namespace Device

def zone? (d : Device) (name : String) : Option Zone := d.zones.find? (·.name == name)

/-- The first interface of a name. -/
def interface? (d : Device) (name : String) : Option Interface :=
  d.interfaces.find? (·.name == name)

/-- The first zone that lists an interface. -/
def zoneOfInterface? (d : Device) (interface : String) : Option Zone :=
  d.zones.find? (·.interfaces.contains interface)

/-- The addresses on the interfaces of a zone, in the order the zone lists
them. Names of interfaces that the device does not have are passed over. -/
def zoneAddresses (d : Device) (z : Zone) : List Network :=
  z.interfaces.flatMap fun name =>
    match d.interface? name with
    | some i => i.addresses
    | none => []

end Device

structure Snapshot where
  toolRunId : Option Uuid
  devices : List Device
  networkBooks : List NetworkBook
  serviceBooks : List ServiceBook
deriving DecidableEq

end Perimeter
