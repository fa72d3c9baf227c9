import Perimeter.Snapshot.Basic

/-!
Links between zones of different devices, which no rule set filters. Declared
adjacencies always count. A strategy may add links between interfaces that
share a subnet, or links along routes to the interface that owns the next hop.
A pair of zones is linked once, for the first reason found.
-/

namespace Perimeter

/-- Why two zones are linked. -/
inductive LinkReason where
  | declared
  | sharedSubnet (subnet : Network)
  | nextHop (via : Address)
deriving DecidableEq

/-- A directed link from one zone to another. -/
structure Link where
  source : ZoneRef
  target : ZoneRef
  reason : LinkReason
deriving DecidableEq

/-- How links are found beyond the declared ones. -/
inductive Inference where
  | explicitOnly
  | sharedSubnet
  | nextHop
deriving DecidableEq

/-- The strategies under their written names. -/
def Inference.names : List (String × Inference) :=
  [("explicit_only", .explicitOnly), ("shared_subnet", .sharedSubnet), ("next_hop", .nextHop)]

/-- Keeps the first link of every pair of distinct zones, given the pairs
linked before. -/
def distinctPairs (seen : List (ZoneRef × ZoneRef)) : List Link → List Link
  | [] => []
  | l :: rest =>
    if l.source = l.target ∨ (l.source, l.target) ∈ seen then distinctPairs seen rest
    else l :: distinctPairs ((l.source, l.target) :: seen) rest

/-- Every item of a list with each one after it. -/
def laterPairs {α : Type} : List α → List (α × α)
  | [] => []
  | a :: rest => rest.map (a, ·) ++ laterPairs rest

namespace Adjacency

/-- The links that an adjacency of a device declares: back from the peer first,
if it counts in both directions. -/
def links (a : Adjacency) (device : String) : List Link :=
  let here : ZoneRef := ⟨device, a.zone⟩
  let peer : ZoneRef := ⟨a.peerDevice, a.peerZone⟩
  (if a.bidirectional then [⟨peer, here, .declared⟩] else []) ++ [⟨here, peer, .declared⟩]

end Adjacency

namespace Device

def declaredLinks (d : Device) : List Link := d.adjacencies.flatMap (·.links d.id)

/-- The interface addresses that belong to zones, in the order of the zones. -/
def zonedAddresses (d : Device) : List (ZoneRef × Network) :=
  d.zones.flatMap fun z => (d.zoneAddresses z).map fun a => (⟨d.id, z.name⟩, a)

end Device

/-- Both links between two interfaces, if the subnet of one holds the address
of the other. Of two subnets the wider one is named. -/
def subnetLinks : (ZoneRef × Network) × (ZoneRef × Network) → List Link
  | ((z, a), (w, b)) =>
    if z.device ≠ w.device ∧ (a.contains b.address ∨ b.contains a.address) then
      let subnet := if a.length ≤ b.length then a.masked else b.masked
      [⟨z, w, .sharedSubnet subnet⟩, ⟨w, z, .sharedSubnet subnet⟩]
    else []

/-- Links between interfaces of different devices on one subnet. Addresses that
stand for a single host form no subnet. -/
def sharedSubnetLinks (devices : List Device) : List Link :=
  (laterPairs ((devices.flatMap Device.zonedAddresses).filter (!·.2.isHost))).flatMap subnetLinks

/-- The zone of the first interface that has an address. -/
def ownerOf? (devices : List Device) (a : Address) : Option ZoneRef :=
  ((devices.flatMap Device.zonedAddresses).find? (·.2.address == a)).map (·.1)

namespace Device

/-- The zone by which a route leaves: that of its interface if it names one,
else the first zone with an address whose network holds the next hop. -/
def egress? (d : Device) (r : Route) (via : Address) : Option ZoneRef :=
  match r.interface with
  | some name => (d.zoneOfInterface? name).map fun z => ⟨d.id, z.name⟩
  | none => (d.zonedAddresses.find? (·.2.contains via)).map (·.1)

/-- The link along a route, if another device owns the next hop. -/
def routeLink? (d : Device) (devices : List Device) (r : Route) : Option Link := do
  let via ← r.nextHop
  let egress ← d.egress? r via
  let owner ← ownerOf? devices via
  if owner.device ≠ d.id then some ⟨egress, owner, .nextHop via⟩ else none

end Device

/-- Links along routes, in the direction of the route only. -/
def nextHopLinks (devices : List Device) : List Link :=
  devices.flatMap fun d => d.routes.filterMap (d.routeLink? devices)

namespace Inference

/-- The links that a strategy finds besides the declared ones. -/
def inferredLinks (i : Inference) (devices : List Device) : List Link :=
  match i with
  | explicitOnly => []
  | sharedSubnet => sharedSubnetLinks devices
  | nextHop => nextHopLinks devices

/-- All links between devices, each pair of zones once. -/
def links (i : Inference) (devices : List Device) : List Link :=
  distinctPairs [] (devices.flatMap Device.declaredLinks ++ i.inferredLinks devices)

end Inference

end Perimeter
