import Perimeter.Topology.Graph

/-!
Paths through the graph of zones: what each hop does with the services that
arrive at it, and why a question is answered the way it is.
-/

namespace Perimeter

/-- How a hop dealt with the traffic that reached it: a rule decided, no rule
matched and the default applied, or nothing filters the link. -/
inductive HopDecision where
  | rule (index : UInt32) (action : Action)
  | default (action : Action)
  | transit (reason : LinkReason)
deriving DecidableEq

/-- One edge of a path, with the services that got through it. -/
structure PathHop where
  source : ZoneRef
  target : ZoneRef
  ruleSet : Option RuleSetId
  decision : HopDecision
  services : ServiceSet
deriving DecidableEq

/-- Whether a rule set governs the hop. -/
def PathHop.isFiltering (h : PathHop) : Bool := h.ruleSet.isSome

/-- Why an answer came out the way it did. -/
inductive Reason where
  | permitted
  /-- Both ends are in one zone, so no rule set applies. -/
  | intraZone
  | deniedByRule (ruleSet : RuleSetId) (index : UInt32)
  | deniedByDefault (ruleSet : RuleSetId)
  /-- No walk connects the zones, whatever the rules say. -/
  | noPath
deriving DecidableEq

/-- The addresses between which traffic flows. -/
structure Ends where
  source : Address
  destination : Address
deriving DecidableEq

namespace Evaluation

/-- The decision that explains an evaluation under a default. -/
def decision (e : Evaluation) (defaultAction : Action) : HopDecision :=
  match e.decidingHit? with
  | some ⟨some index, action, _⟩ => .rule index action
  | some ⟨none, action, _⟩ => .default action
  | none => .default defaultAction

end Evaluation

namespace EdgeKind

/-- The services that an edge lets through. -/
def passed (k : EdgeKind) (ends : Ends) (arriving : ServiceSet) : ServiceSet :=
  match k with
  | filtered rs => (rs.evaluateServices ends.source ends.destination arriving).permitted
  | transit _ => arriving

def decision (k : EdgeKind) (ends : Ends) (arriving : ServiceSet) : HopDecision :=
  match k with
  | filtered rs =>
    (rs.evaluateServices ends.source ends.destination arriving).decision rs.defaultAction
  | transit reason => .transit reason

def ruleSetId? : EdgeKind → Option RuleSetId
  | filtered rs => some rs.id
  | transit _ => none

end EdgeKind

namespace PathHop

/-- The reason a filtered hop gives for a denial. -/
def denial? (h : PathHop) : Option Reason :=
  h.ruleSet.map fun ruleSet =>
    match h.decision with
    | .rule index .deny => .deniedByRule ruleSet index
    | _ => .deniedByDefault ruleSet

end PathHop

namespace Graph

/-- The hop that traffic makes over an edge that leaves a node. -/
def cross (g : Graph) (i : Fin g.size) (e : Edge g.size) (ends : Ends) (arriving : ServiceSet) :
    PathHop where
  source := g.zone i
  target := g.zone e.target
  ruleSet := e.kind.ruleSetId?
  decision := e.kind.decision ends arriving
  services := e.kind.passed ends arriving

end Graph

end Perimeter
