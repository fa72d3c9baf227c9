import Perimeter.Network.Set
import Perimeter.Rule.Basic

/-!
Rules with their books expanded, and their first-match evaluation in three
forms: for one flow, for a set of services offered between two addresses, and
as a bound over all addresses.
-/

namespace Perimeter

/-- A rule with the sets that its books stand for. -/
structure ResolvedRule where
  index : UInt32
  action : Action
  source : NetworkSet
  destination : NetworkSet
  services : ServiceSet
  description : Option String
deriving DecidableEq

namespace ResolvedRule

def matchesAddresses (r : ResolvedRule) (source destination : Address) : Bool :=
  r.source.contains source && r.destination.contains destination

/-- Whether the rule covers the whole flow; every port of its protocol, if the
flow names none. -/
def covers (r : ResolvedRule) (flow : Flow) : Bool :=
  r.matchesAddresses flow.source flow.destination &&
    match flow.port with
    | some port => r.services.contains flow.protocol port
    | none => (r.services.portsFor flow.protocol).isFull

/-- Whether the rule applies between every two addresses. -/
def isUniversal (r : ResolvedRule) : Bool := r.source.isAny && r.destination.isAny

end ResolvedRule

/-- The services that one rule claimed; the default, if no rule is named. -/
structure Hit where
  rule : Option UInt32
  action : Action
  services : ServiceSet
deriving DecidableEq

/-- What became of offered services: those permitted, and who claimed which. -/
structure Evaluation where
  permitted : ServiceSet
  hits : List Hit
deriving DecidableEq

/-- The hit that explains the outcome: the first permit if anything passed,
otherwise the first claim. -/
def Evaluation.decidingHit? (e : Evaluation) : Option Hit :=
  if e.permitted.isEmpty then e.hits.head? else e.hits.find? (·.action == .permit)

/-- A rule set with every enabled rule resolved, in order of evaluation. -/
structure ResolvedRuleSet where
  id : RuleSetId
  defaultAction : Action
  rules : List ResolvedRule
deriving DecidableEq

namespace ResolvedRuleSet

/-- The action of the first rule that covers the flow, with its index, or the
default. -/
def evaluate (rs : ResolvedRuleSet) (flow : Flow) : Action × Option UInt32 :=
  match rs.rules.find? (·.covers flow) with
  | some rule => (rule.action, some rule.index)
  | none => (rs.defaultAction, none)

/-- The claims on what remains of an offer: each rule that matches the
addresses takes what it covers of the rest, and the default takes what is left
over. Rules that take nothing make no claim. -/
def claims (defaultAction : Action) (source destination : Address) (remaining : ServiceSet) :
    List ResolvedRule → List Hit
  | [] => if remaining.isEmpty then [] else [⟨none, defaultAction, remaining⟩]
  | rule :: rest =>
    if rule.matchesAddresses source destination then
      let claimed := remaining.intersect rule.services
      if claimed.isEmpty then claims defaultAction source destination remaining rest
      else
        ⟨some rule.index, rule.action, claimed⟩ ::
          claims defaultAction source destination (remaining.subtract claimed) rest
    else claims defaultAction source destination remaining rest

/-- The services that permitting hits let through. -/
def permittedBy (hits : List Hit) : ServiceSet :=
  ((hits.filter (·.action == .permit)).map (·.services)).foldl .union .empty

/-- First-match evaluation of a set of services between two addresses. -/
def evaluateServices (rs : ResolvedRuleSet) (source destination : Address)
    (offered : ServiceSet) : Evaluation :=
  let hits := claims rs.defaultAction source destination offered rs.rules
  ⟨permittedBy hits, hits⟩

/-- What rules and the default may let through of the rest of the services.
Only a rule that applies between all addresses uses services up. -/
def envelopeFrom (defaultAction : Action) (remaining : ServiceSet) : List ResolvedRule → ServiceSet
  | [] => if defaultAction = .permit then remaining else .empty
  | rule :: rest =>
    let claimed := remaining.intersect rule.services
    let later := envelopeFrom defaultAction
      (if rule.isUniversal then remaining.subtract claimed else remaining) rest
    if rule.action = .permit then claimed.union later else later

/-- A bound on the services that any flow gets through the rule set. -/
def envelope (rs : ResolvedRuleSet) : ServiceSet := envelopeFrom rs.defaultAction .any rs.rules

end ResolvedRuleSet

end Perimeter
