import Perimeter.Address.Basic
import Perimeter.Service.Set

/-!
Flows: the traffic of one protocol between two addresses, to one port or to
every port.
-/

namespace Perimeter

/-- What a rule or a default does with traffic. -/
inductive Action where
  | permit
  | deny
deriving DecidableEq

def Action.text : Action → String
  | permit => "permit"
  | deny => "deny"

/-- The traffic of one protocol between two addresses; no port means every port. -/
structure Flow where
  source : Address
  destination : Address
  protocol : Protocol
  port : Option UInt16
deriving DecidableEq

end Perimeter
