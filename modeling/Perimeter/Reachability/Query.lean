import Perimeter.Reachability.Search

/-!
Questions about flows: where their ends lie, and whether the rules on the way
let them through.
-/

namespace Perimeter

/-- What keeps a question from being answered. -/
inductive QueryError where
  | ambiguousZone (address : Address) (zones : List ZoneRef)
  | noZone (address : Address)
  | unknownZone (zone : ZoneRef)
deriving DecidableEq

def QueryError.message : QueryError → String
  | ambiguousZone address zones =>
    address.text ++ " is in more than one zone (" ++ ", ".intercalate (zones.map ZoneRef.text) ++
      "); name the zone explicitly"
  | noZone address => address.text ++ " is not in any zone's address space"
  | unknownZone zone => "Unknown zone: " ++ zone.text

/-- A question about a flow, with the zones of its ends where they are named. -/
structure FlowQuery where
  source : Address
  destination : Address
  protocol : Protocol
  /-- The destination port; none stands for every port. -/
  port : Option UInt16
  sourceZone : Option ZoneRef
  destinationZone : Option ZoneRef
deriving DecidableEq

namespace FlowQuery

/-- The services that the question asks about. -/
def offered (q : FlowQuery) : ServiceSet := .ofFlow q.protocol q.port

def ends (q : FlowQuery) : Ends := ⟨q.source, q.destination⟩

end FlowQuery

/-- The answer to a question, with the path and the decisions that explain it. -/
structure Verdict where
  digest : String
  query : FlowQuery
  sourceZone : ZoneRef
  destinationZone : ZoneRef
  allowed : Bool
  reason : Reason
  path : List PathHop
  /-- The services that arrive at the destination. -/
  permitted : ServiceSet
deriving DecidableEq

namespace Verdict

/-- The services that are left after each hop. -/
def narrowing (v : Verdict) : List ServiceSet := v.path.map (·.services)

/-- The hops that a rule set governs. -/
def filteringHops (v : Verdict) : List PathHop := v.path.filter (·.isFiltering)

end Verdict

namespace Graph

/-- The node at one end of a question: that of the named zone, else the only
one whose addresses contain the given one. -/
def locate (g : Graph) (a : Address) (zone : Option ZoneRef) : Except QueryError (Fin g.size) :=
  match zone with
  | some zone =>
    match g.index? zone with
    | some i => .ok i
    | none => .error (.unknownZone zone)
  | none =>
    match g.zonesContaining a with
    | [] => .error (.noZone a)
    | [i] => .ok i
    | many => .error (.ambiguousZone a (many.map g.zone))

/-- Answers a question, marking the verdict with the digest of the snapshot. -/
def query (g : Graph) (q : FlowQuery) (digest : String) : Except QueryError Verdict := do
  let source ← g.locate q.source q.sourceZone
  let destination ← g.locate q.destination q.destinationZone
  let verdict (allowed : Bool) (reason : Reason) (path : List PathHop) (permitted : ServiceSet) :
      Verdict :=
    ⟨digest, q, g.zone source, g.zone destination, allowed, reason, path, permitted⟩
  if source = destination then return verdict true .intraZone [] q.offered
  match g.search source destination q.ends q.offered with
  | .reached path permitted => return verdict true .permitted path permitted
  | .denied path reason => return verdict false reason path .empty
  | .noPath => return verdict false .noPath [] .empty

end Graph

end Perimeter
