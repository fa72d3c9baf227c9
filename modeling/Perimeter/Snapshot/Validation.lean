import Perimeter.Snapshot.Basic

/-!
The structure that a snapshot must have before its books are resolved. Devices
are checked in order, each as a whole, then network books, then service books;
the first fault found is the one reported.
-/

namespace Perimeter

/-- What can be wrong with a snapshot. -/
inductive SnapshotError where
  | book (e : BookError)
  | duplicateDevice (device : String)
  | duplicateZone (device zone : String)
  | duplicateRuleSet (device fromZone toZone : String)
  /-- A book is scoped to a device that the snapshot lacks. -/
  | unknownDevice (device book : String)
  | invalidPortRange (book : String) (ports : PortRange)
  | ruleIndexOrder (ruleSet : RuleSetId) (previous index : UInt32)
  | ruleZoneMismatch (ruleSet : RuleSetId) (index : UInt32) (zone : String)
deriving DecidableEq

namespace SnapshotError

private def word (n : UInt32) : String := Text.decimal n.toNat

def message : SnapshotError → String
  | book e => e.message
  | duplicateDevice device => "Duplicate device id " ++ device
  | duplicateZone device zone => "Duplicate zone '" ++ zone ++ "' on device " ++ device
  | duplicateRuleSet device fromZone toZone =>
    "Duplicate rule set " ++ fromZone ++ " -> " ++ toZone ++ " on device " ++ device
  | unknownDevice device name => "Book '" ++ name ++ "' is scoped to unknown device " ++ device
  | invalidPortRange name ports =>
    "Invalid port range " ++ Text.decimal ports.lo.toNat ++ "-" ++ Text.decimal ports.hi.toNat ++
      " in service book '" ++ name ++ "'"
  | ruleIndexOrder ruleSet previous index =>
    "Rule index " ++ word index ++ " does not follow " ++ word previous ++ " in rule set " ++
      ruleSet.text
  | ruleZoneMismatch ruleSet index zone =>
    "Rule " ++ word index ++ " in rule set " ++ ruleSet.text ++ " names zone '" ++ zone ++
      "' outside the rule set"

end SnapshotError

/-- The first item whose key an earlier item has. -/
def firstRepeated? {α κ : Type} [DecidableEq κ] (key : α → κ) (seen : List κ) :
    List α → Option α
  | [] => none
  | a :: rest => if key a ∈ seen then some a else firstRepeated? key (key a :: seen) rest

namespace AclRule

/-- A zone that a rule names although its rule set is for another one. -/
def foreignZone? (r : AclRule) (rs : RuleSet) : Option String :=
  (r.sourceZone.filter (· ≠ rs.fromZone)).or (r.destinationZone.filter (· ≠ rs.toZone))

end AclRule

namespace RuleSet

/-- The first fault in the rules from some point on: an index that does not
follow the one before, or a zone outside the rule set. -/
def ruleFault? (rs : RuleSet) (id : RuleSetId) (previous : Option UInt32) :
    List AclRule → Option SnapshotError
  | [] => none
  | r :: rest =>
    match previous.filter (r.index ≤ ·) with
    | some p => some (.ruleIndexOrder id p r.index)
    | none =>
      match r.foreignZone? rs with
      | some zone => some (.ruleZoneMismatch id r.index zone)
      | none => rs.ruleFault? id (some r.index) rest

end RuleSet

namespace Device

/-- The first fault in the rule sets from some point on, given the directions
of those before. -/
def ruleSetFault? (d : Device) (seen : List (String × String)) :
    List RuleSet → Option SnapshotError
  | [] => none
  | rs :: rest =>
    if (rs.fromZone, rs.toZone) ∈ seen then
      some (.duplicateRuleSet d.id rs.fromZone rs.toZone)
    else (rs.ruleFault? (rs.id d.id) none rs.rules).or
      (d.ruleSetFault? ((rs.fromZone, rs.toZone) :: seen) rest)

/-- The first fault in the structure of a device. -/
def fault? (d : Device) : Option SnapshotError :=
  match firstRepeated? Zone.name [] d.zones with
  | some z => some (.duplicateZone d.id z.name)
  | none => d.ruleSetFault? [] d.ruleSets

/-- The first fault in the devices from some point on, given the identifiers of
those before. -/
def listFault? (seen : List String) : List Device → Option SnapshotError
  | [] => none
  | d :: rest =>
    if d.id ∈ seen then some (.duplicateDevice d.id)
    else d.fault?.or (listFault? (d.id :: seen) rest)

end Device

namespace Book

/-- A book must be global or belong to one of the devices. -/
def scopeFault? {Literal : Type} (b : Book Literal) (devices : List String) :
    Option SnapshotError :=
  match b.scope with
  | .global => none
  | .device id => if id ∈ devices then none else some (.unknownDevice id b.name)

/-- The literals of a book, those it excludes last. -/
def literals {Literal : Type} (b : Book Literal) : List Literal :=
  (b.entries ++ b.exclusions).filterMap fun
    | .literal item => some item
    | .book _ => none

/-- The first port range of a service book whose bounds are out of order. -/
def portFault? (b : ServiceBook) : Option SnapshotError :=
  (b.literals.find? (!·.ports.isValid)).map fun e => .invalidPortRange b.name e.ports

end Book

namespace Snapshot

/-- The first fault in the structure of a snapshot. -/
def fault? (s : Snapshot) : Option SnapshotError :=
  let devices := s.devices.map (·.id)
  (Device.listFault? [] s.devices).or <|
    (s.networkBooks.findSome? (·.scopeFault? devices)).or <|
      s.serviceBooks.findSome? fun b => (b.scopeFault? devices).or b.portFault?

end Snapshot

end Perimeter
