import Perimeter.Flow

/-!
Access rules as configured: ordered lists of permits and denials for traffic
from one zone of a device to another, which name books for their addresses and
services.
-/

namespace Perimeter

/-- One line of a rule set. What it leaves out, it does not restrict. -/
structure AclRule where
  /-- The place of the rule in the order of evaluation. -/
  index : UInt32
  action : Action
  sourceZone : Option String
  sourceBook : Option String
  destinationZone : Option String
  destinationBook : Option String
  serviceBook : Option String
  /-- The only protocol that the rule applies to. -/
  protocol : Option Protocol
  enabled : Bool
  description : Option String
deriving DecidableEq

/-- The rules for traffic from one zone to another, and what happens to traffic
that no rule matches. -/
structure RuleSet where
  name : Option String
  fromZone : String
  toZone : String
  defaultAction : Action
  rules : List AclRule
deriving DecidableEq

/-- The identity of a rule set: its device, its direction and its name, if any. -/
structure RuleSetId where
  device : String
  fromZone : String
  toZone : String
  name : Option String
deriving DecidableEq

namespace RuleSetId

def text (id : RuleSetId) : String :=
  id.device ++ ":" ++ id.fromZone ++ "->" ++ id.toZone ++
    match id.name with
    | some name => " (" ++ name ++ ")"
    | none => ""

end RuleSetId

def RuleSet.id (device : String) (r : RuleSet) : RuleSetId :=
  ⟨device, r.fromZone, r.toZone, r.name⟩

end Perimeter
