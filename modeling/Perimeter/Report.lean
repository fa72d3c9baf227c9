import Perimeter.Engine
import Perimeter.Topology.Export

/-!
Answers as JSON documents, fields in declared order. Parts that an answer may
lack are left out, but the open fields of a question are written as null.
-/

namespace Perimeter

open Json

namespace NetworkSet

def toJson (s : NetworkSet) : Json := ofList Network.toJson s.toNetworks

end NetworkSet

namespace ServiceSet

/-- The ports of the set under the names of its protocols, ordered by name. -/
def toJson (s : ServiceSet) : Json :=
  record ((s.texts.mergeSort fun a b => decide (a.1 ≤ b.1)).map fun (name, ports) =>
    (name, ofList ofText ports))

end ServiceSet

namespace RuleSetId

def toJson (id : RuleSetId) : Json :=
  record ([("device", ofText id.device), ("from_zone", ofText id.fromZone),
    ("to_zone", ofText id.toZone)] ++ (id.name.map fun name => ("name", ofText name)).toList)

end RuleSetId

namespace LinkReason

def toJson : LinkReason → Json
  | .declared => record [("kind", ofText "declared")]
  | .sharedSubnet subnet => record [("kind", ofText "shared_subnet"), ("subnet", subnet.toJson)]
  | .nextHop via => record [("kind", ofText "next_hop"), ("via", via.toJson)]

end LinkReason

namespace HopDecision

def toJson : HopDecision → Json
  | .rule index action =>
    record [("kind", ofText "rule"), ("index", ofNat index.toNat), ("action", action.toJson)]
  | .default action => record [("kind", ofText "default"), ("action", action.toJson)]
  | .transit reason => record [("kind", ofText "transit"), ("link", reason.toJson)]

end HopDecision

namespace PathHop

def toJson (h : PathHop) : Json :=
  record ([("from", h.source.toJson), ("to", h.target.toJson)] ++
    (h.ruleSet.map fun id => ("rule_set", id.toJson)).toList ++
    [("decision", h.decision.toJson), ("services", h.services.toJson)])

end PathHop

namespace Reason

def toJson : Reason → Json
  | .permitted => record [("kind", ofText "permitted")]
  | .intraZone => record [("kind", ofText "intra_zone")]
  | .deniedByRule ruleSet index =>
    record [("kind", ofText "denied_by_rule"), ("rule_set", ruleSet.toJson),
      ("rule_index", ofNat index.toNat)]
  | .deniedByDefault ruleSet =>
    record [("kind", ofText "denied_by_default"), ("rule_set", ruleSet.toJson)]
  | .noPath => record [("kind", ofText "no_path")]

end Reason

namespace FlowQuery

def toJson (q : FlowQuery) : Json :=
  record [("source", q.source.toJson), ("destination", q.destination.toJson),
    ("protocol", q.protocol.toJson), ("port", ofOption (fun p => ofNat p.toNat) q.port),
    ("source_zone", ofOption ZoneRef.toJson q.sourceZone),
    ("destination_zone", ofOption ZoneRef.toJson q.destinationZone)]

def ofJson? (v : Json) : Option FlowQuery := do
  let [source, destination, protocol, port, sourceZone, destinationZone] ←
    slots? ["source", "destination", "protocol", "port", "source_zone", "destination_zone"] v
    | none
  return ⟨← source.required Address.ofJson?, ← destination.required Address.ofJson?,
    ← protocol.required Protocol.ofJson?, ← port.optional uint16?,
    ← sourceZone.optional ZoneRef.ofJson?, ← destinationZone.optional ZoneRef.ofJson?⟩

end FlowQuery

namespace Flow

def ofJson? (v : Json) : Option Flow := do
  let [source, destination, protocol, port] ←
    slots? ["source", "destination", "protocol", "port"] v | none
  return ⟨← source.required Address.ofJson?, ← destination.required Address.ofJson?,
    ← protocol.required Protocol.ofJson?, ← port.nullable uint16?⟩

end Flow

namespace Inference

def ofJson? : Decoder Inference := oneOf? names

end Inference

namespace EngineConfig

def ofJson? (v : Json) : Option EngineConfig := do
  let [topology, parallel, builtins] ←
    slots? ["topology", "parallel_resolution", "builtin_books"] v | none
  return ⟨← topology.withDefault Inference.ofJson? .sharedSubnet,
    ← parallel.withDefault bool? true, ← builtins.withDefault bool? true⟩

end EngineConfig

/-- What tells two answers to one question apart: an identifier and a time. -/
structure Stamp where
  id : String
  computedAt : String

namespace Verdict

/-- The fields of a verdict other than its stamp, the digest first. -/
def fields (v : Verdict) : List (String × Json) :=
  [("query", v.query.toJson), ("source_zone", v.sourceZone.toJson),
    ("destination_zone", v.destinationZone.toJson), ("allowed", .bool v.allowed),
    ("reason", v.reason.toJson), ("path", ofList PathHop.toJson v.path),
    ("narrowing", ofList ServiceSet.toJson v.narrowing), ("permitted", v.permitted.toJson)]

def toJson (v : Verdict) (stamp : Stamp) : Json :=
  record ([("id", ofText stamp.id), ("snapshot_digest", ofText v.digest),
    ("computed_at", ofText stamp.computedAt)] ++ v.fields)

end Verdict

namespace GraphExport

def nodeJson (n : Node) : Json :=
  record [("id", n.zone.toJson), ("device", ofText n.zone.device), ("zone", ofText n.zone.zone),
    ("networks", n.networks.toJson)]

def edgeJson (e : ExportedEdge) : Json :=
  record ([("from", e.source.toJson), ("to", e.target.toJson)] ++
    (e.ruleSet.map fun id => ("rule_set", id.toJson)).toList ++
    (e.link.map fun reason => ("link", reason.toJson)).toList ++
    [("permitted", .bool e.permitted), ("services", e.services.toJson)])

def toJson (x : GraphExport) : Json :=
  record [("nodes", ofList nodeJson x.nodes), ("edges", ofList edgeJson x.edges)]

end GraphExport

namespace Engine

/-- What a load amounts to, with the keys in the order of their names. -/
def summaryJson (e : Engine) : Json :=
  record [("devices", ofNat e.resolved.devices.length), ("digest", Json.ofText e.digest),
    ("edges", ofNat e.graph.edgeCount),
    ("network_books", ofNat e.resolved.books.networks.size), ("nodes", ofNat e.graph.size),
    ("service_books", ofNat e.resolved.books.services.size),
    ("tool_run_id", ofOption Uuid.toJson e.resolved.snapshot.toolRunId)]

end Engine

end Perimeter
