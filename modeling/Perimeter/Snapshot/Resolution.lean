import Perimeter.Book.Resolver
import Perimeter.Rule.Evaluation
import Perimeter.Snapshot.Document
import Perimeter.Snapshot.Validation

/-!
Resolution of a whole snapshot. Global books are resolved first, into tables
that every device may read; then each device by itself, its own books before
its rules and the address books of its zones; and last the tables of all
devices are joined. Every book and every rule is resolved, whether it is used
or not, so a cycle or an unknown name anywhere is found.
-/

namespace Perimeter

/-- A device with its enabled rules resolved, and the address book of every
zone that has one. -/
structure ResolvedDevice where
  id : String
  ruleSets : List ResolvedRuleSet
  zoneBooks : List (String × NetworkSet)

/-- A valid snapshot with all books resolved, devices in the order of the snapshot. -/
structure ResolvedSnapshot where
  snapshot : Snapshot
  digest : String
  books : BookTables
  devices : List ResolvedDevice

namespace ResolvedSnapshot

def device? (s : ResolvedSnapshot) (id : String) : Option ResolvedDevice :=
  s.devices.find? (·.id == id)

end ResolvedSnapshot

namespace Resolver

/-- The set of a book, or every address where no book is named. -/
def networkOrAny (r : Resolver) (book : Option String) (scope : Scope) : Resolving NetworkSet :=
  match book with
  | some name => r.network name scope
  | none => pure .any

/-- The set of a book, or every service where no book is named. -/
def serviceOrAny (r : Resolver) (book : Option String) (scope : Scope) : Resolving ServiceSet :=
  match book with
  | some name => r.service name scope
  | none => pure .any

def rule (r : Resolver) (scope : Scope) (rule : AclRule) : Resolving ResolvedRule := do
  let source ← r.networkOrAny rule.sourceBook scope
  let destination ← r.networkOrAny rule.destinationBook scope
  let services ← r.serviceOrAny rule.serviceBook scope
  return {
    index := rule.index
    action := rule.action
    source
    destination
    services := match rule.protocol with
      | some p => services.restrictTo p
      | none => services
    description := rule.description
  }

/-- Resolves all rules of a set and keeps the enabled ones. -/
def ruleSet (r : Resolver) (device : String) (rs : RuleSet) : Resolving ResolvedRuleSet := do
  let rules ← rs.rules.mapM fun rule => do
    let resolved ← r.rule (.device device) rule
    return if rule.enabled then some resolved else none
  return ⟨rs.id device, rs.defaultAction, rules.filterMap id⟩

/-- The address books of the zones that have one. -/
def zoneBooks (r : Resolver) (d : Device) : Resolving (List (String × NetworkSet)) := do
  let books ← d.zones.mapM fun z =>
    match z.addressBook with
    | some book => do return some (z.name, ← r.network book (.device d.id))
    | none => pure none
  return books.filterMap id

def device (r : Resolver) (d : Device) : Resolving ResolvedDevice := do
  r.resolveScope (.device d.id)
  let ruleSets ← d.ruleSets.mapM (r.ruleSet d.id)
  let zoneBooks ← r.zoneBooks d
  return ⟨d.id, ruleSets, zoneBooks⟩

/-- The result of some work that starts from empty tables, with what it resolved. -/
def fromEmpty {α : Type} (work : Resolving α) : Except BookError (α × BookTables) :=
  let (result, done) := work.run.run .empty
  result.map (·, done)

end Resolver

namespace Catalog

/-- The tables of all global books. -/
def resolveGlobals (c : Catalog) : Except BookError BookTables :=
  (Resolver.fromEmpty (Resolver.resolveScope ⟨c, .empty⟩ .global)).map (·.2)

/-- A device by itself, with the tables of its own books. -/
def resolveDevice (c : Catalog) (globals : BookTables) (d : Device) :
    Except BookError (ResolvedDevice × BookTables) :=
  Resolver.fromEmpty (Resolver.device ⟨c, globals⟩ d)

end Catalog

namespace Snapshot

/-- Checks a snapshot and resolves all of it. -/
def resolve (s : Snapshot) (builtins : Bool) : Except SnapshotError ResolvedSnapshot := do
  if let some e := s.fault? then throw e
  let catalog ← (Catalog.ofBooks s.networkBooks s.serviceBooks builtins).mapError .book
  let globals ← catalog.resolveGlobals.mapError .book
  let devices ← (s.devices.mapM (catalog.resolveDevice globals)).mapError .book
  return {
    snapshot := s
    digest := s.digest
    books := (devices.map (·.2)).foldl .merge globals
    devices := devices.map (·.1)
  }

end Snapshot

end Perimeter
