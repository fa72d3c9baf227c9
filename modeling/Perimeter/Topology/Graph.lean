import Perimeter.Counting
import Perimeter.Snapshot.Resolution
import Perimeter.Topology.Link
import Perimeter.Topology.Marking

/-!
The graph of zones. Nodes follow the order of devices and of the zones inside a
device. An edge is either filtered by the rule set for its pair of zones or
crosses a link between devices unfiltered. The edges that leave a node are in
the order of their targets, filtered edges before links.
-/

namespace Perimeter

/-- A zone and the addresses in it. -/
structure Node where
  zone : ZoneRef
  networks : NetworkSet

/-- What governs traffic along an edge. -/
inductive EdgeKind where
  | filtered (ruleSet : ResolvedRuleSet)
  | transit (reason : LinkReason)

/-- An edge to one of `n` nodes. -/
structure Edge (n : Nat) where
  target : Fin n
  kind : EdgeKind

/-- A graph of zones: nodes by index, and the edges that leave each of them. -/
structure Graph where
  size : Nat
  nodes : Vector Node size
  edges : Vector (List (Edge size)) size

/-- What keeps a graph from being built. -/
inductive GraphError where
  /-- A rule set or a link names a zone that its device does not declare. -/
  | undeclaredZone (zone : ZoneRef)
  /-- A link names a device that the snapshot lacks. -/
  | unknownDevice (device : String)
deriving DecidableEq

def GraphError.message : GraphError → String
  | undeclaredZone zone => "Zone " ++ zone.zone ++ " is not declared on device " ++ zone.device
  | unknownDevice device =>
    "Device " ++ device ++ " is referenced by the topology but not present in the snapshot"

/-- The first device that a link names and a list lacks. -/
def strangeDevice? (links : List Link) (devices : List Device) : Option String :=
  (links.flatMap fun l => [l.source.device, l.target.device]).find?
    (!(devices.map (·.id)).contains ·)

namespace ResolvedDevice

/-- The addresses of a zone: its interface subnets and its address book. -/
def zoneNetworks (r : ResolvedDevice) (d : Device) (z : Zone) : NetworkSet :=
  (NetworkSet.ofNetworks (d.zoneAddresses z)).union ((r.zoneBooks.lookup z.name).getD .empty)

def nodes (r : ResolvedDevice) (d : Device) : List Node :=
  d.zones.map fun z => ⟨⟨d.id, z.name⟩, r.zoneNetworks d z⟩

end ResolvedDevice

namespace ResolvedSnapshot

def nodes (s : ResolvedSnapshot) : List Node :=
  (s.snapshot.devices.zip s.devices).flatMap fun (d, r) => r.nodes d

end ResolvedSnapshot

/-- An edge before it is attached to the node it leaves. -/
structure Arc (n : Nat) where
  source : Fin n
  edge : Edge n

/-- The index of a zone among nodes. -/
def indexOf (nodes : List Node) (zone : ZoneRef) : Except GraphError (Fin nodes.length) :=
  match nodes.findFinIdx? (·.zone == zone) with
  | some i => .ok i
  | none => .error (.undeclaredZone zone)

def arcBetween (nodes : List Node) (source target : ZoneRef) (kind : EdgeKind) :
    Except GraphError (Arc nodes.length) := do
  let source ← indexOf nodes source
  let target ← indexOf nodes target
  return ⟨source, target, kind⟩

namespace ResolvedDevice

/-- The edge of every rule set, from its one zone to its other. -/
def arcs (r : ResolvedDevice) (nodes : List Node) : Except GraphError (List (Arc nodes.length)) :=
  r.ruleSets.mapM fun rs =>
    arcBetween nodes ⟨r.id, rs.id.fromZone⟩ ⟨r.id, rs.id.toZone⟩ (.filtered rs)

end ResolvedDevice

namespace Graph

/-- The graph with the given nodes and arcs. Arcs of one source and one target
keep their order. -/
def ofArcs (nodes : List Node) (arcs : List (Arc nodes.length)) : Graph where
  size := nodes.length
  nodes := ⟨nodes.toArray, by simp⟩
  edges := Vector.ofFn fun i =>
    ((arcs.filter (·.source = i)).map (·.edge)).mergeSort fun a b => a.target ≤ b.target

/-- The graph of a resolved snapshot under a strategy for links. -/
def build (s : ResolvedSnapshot) (inference : Inference) : Except GraphError Graph := do
  let nodes := s.nodes
  let filtered ← s.devices.mapM (·.arcs nodes)
  let links := inference.links s.snapshot.devices
  if let some device := strangeDevice? links s.snapshot.devices then
    throw (.unknownDevice device)
  let transit ← links.mapM fun l => arcBetween nodes l.source l.target (.transit l.reason)
  return ofArcs nodes (filtered.flatten ++ transit)

def node (g : Graph) (i : Fin g.size) : Node := g.nodes.get i

/-- The edges that leave a node. -/
def leaving (g : Graph) (i : Fin g.size) : List (Edge g.size) := g.edges.get i

def zone (g : Graph) (i : Fin g.size) : ZoneRef := (g.node i).zone

/-- The node of a zone. -/
def index? (g : Graph) (zone : ZoneRef) : Option (Fin g.size) :=
  (List.finRange g.size).find? fun i => g.zone i == zone

/-- The nodes whose addresses contain the given one, in order. -/
def zonesContaining (g : Graph) (a : Address) : List (Fin g.size) :=
  (List.finRange g.size).filter fun i => (g.node i).networks.contains a

def edgeCount (g : Graph) : Nat := sumOver List.length g.edges.toList

/-- Lists a node as a feeder of the node that an edge leads to. -/
def addFeeder {n : Nat} (i : Fin n) (feeders : Vector (List (Fin n)) n) (e : Edge n) :
    Vector (List (Fin n)) n :=
  feeders.set e.target.val (feeders.get e.target ++ [i]) e.target.isLt

/-- For each node those with an edge into it, one for each such edge. -/
def feeders (g : Graph) : Vector (List (Fin g.size)) g.size :=
  (List.finRange g.size).foldl (fun feeders i => (g.leaving i).foldl (addFeeder i) feeders)
    (Vector.replicate g.size [])

/-- Marks the nodes from which some walk leads to the target, whatever the rules say. -/
def reachingMarks (g : Graph) (target : Fin g.size) : Vector Bool g.size :=
  (Marking.start target).spread g.feeders

/-- The nodes from which some walk leads to the target. -/
def nodesReaching (g : Graph) (target : Fin g.size) : List (Fin g.size) :=
  (List.finRange g.size).filter (g.reachingMarks target).get

end Graph

end Perimeter
