import Perimeter.Topology.Graph

/-!
The graph of zones as plain lists of nodes and edges, for programs that draw
it. Each edge comes with a bound on the services that can cross it.
-/

namespace Perimeter

/-- An edge of an exported graph. -/
structure ExportedEdge where
  source : ZoneRef
  target : ZoneRef
  ruleSet : Option RuleSetId
  link : Option LinkReason
  /-- The most that any flow gets over the edge. -/
  services : ServiceSet

/-- Whether any service can cross the edge. -/
def ExportedEdge.permitted (e : ExportedEdge) : Bool := !e.services.isEmpty

structure GraphExport where
  nodes : List Node
  edges : List ExportedEdge

namespace Graph

def exportEdge (g : Graph) (i : Fin g.size) (e : Edge g.size) : ExportedEdge :=
  match e.kind with
  | .filtered rs => ⟨g.zone i, g.zone e.target, some rs.id, none, rs.envelope⟩
  | .transit reason => ⟨g.zone i, g.zone e.target, none, some reason, .any⟩

/-- Nodes in order, and the edges of each node in order. -/
def toExport (g : Graph) : GraphExport where
  nodes := g.nodes.toList
  edges := (List.finRange g.size).flatMap fun i => (g.leaving i).map (g.exportEdge i)

end Graph

end Perimeter
