import Perimeter.Digest.Blake3
import Perimeter.Json.Decoding
import Perimeter.Json.Printing
import Perimeter.Json.Reading
import Perimeter.Snapshot.Basic

/-!
Snapshots as JSON documents. Every type has a form that is written, with all
fields in declared order, and a decoder that also fills in defaults. The digest
of a snapshot is the hash of its written form, so a document that spells the
same snapshot in another way has the same digest.
-/

namespace Perimeter

open Json

namespace Address

def toJson (a : Address) : Json := ofText a.text

def ofJson? : Decoder Address := parsed? ofText?

end Address

namespace Network

def toJson (n : Network) : Json := ofText n.text

def ofJson? : Decoder Network := parsed? ofText?

end Network

namespace Protocol

def toJson (p : Protocol) : Json := ofText p.text

def ofJson? : Decoder Protocol := parsed? ofText?

end Protocol

namespace ZoneRef

def toJson (z : ZoneRef) : Json := ofText z.text

def ofJson? : Decoder ZoneRef := parsed? ofText?

end ZoneRef

namespace Uuid

def toJson (u : Uuid) : Json := ofText u.text

def ofJson? : Decoder Uuid := parsed? ofText?

end Uuid

namespace Scope

def toJson : Scope → Json
  | .global => Json.ofText "global"
  | .device id => record [("device", Json.ofText id)]

def ofJson? (v : Json) : Option Scope := do
  let (name, content) ← case? v
  if name = "global" then if isBare content then some .global else none
  else if name = "device" then (content.bind text?).map .device
  else none

end Scope

namespace Action

def toJson (a : Action) : Json := ofText a.text

def ofJson? : Decoder Action := oneOf? [("permit", .permit), ("deny", .deny)]

end Action

namespace PortRange

def toJson (r : PortRange) : Json :=
  record [("lo", ofNat r.lo.toNat), ("hi", ofNat r.hi.toNat)]

def ofJson? (v : Json) : Option PortRange := do
  let [lo, hi] ← slots? ["lo", "hi"] v | none
  return ⟨← lo.required uint16?, ← hi.required uint16?⟩

end PortRange

namespace PortEntry

def toJson (e : PortEntry) : Json :=
  record [("protocol", ofOption Protocol.toJson e.protocol), ("ports", e.ports.toJson)]

def ofJson? (v : Json) : Option PortEntry := do
  let [protocol, ports] ← slots? ["protocol", "ports"] v | none
  return ⟨← protocol.optional Protocol.ofJson?, ← ports.withDefault PortRange.ofJson? .all⟩

end PortEntry

namespace Entry

variable {Literal : Type}

/-- An entry under the name of its kind. -/
def toJson (kind : String) (literal : Literal → Json) : Entry Literal → Json
  | .literal item => record [(kind, literal item)]
  | .book name => record [("book", Json.ofText name)]

def ofJson? (kind : String) (literal : Decoder Literal) (v : Json) : Option (Entry Literal) := do
  let (name, content) ← case? v
  let content ← content
  if name = kind then (literal content).map .literal
  else if name = "book" then (text? content).map .book
  else none

end Entry

namespace Book

variable {Literal : Type}

def toJson (entry : Entry Literal → Json) (b : Book Literal) : Json :=
  record [("name", Json.ofText b.name), ("scope", b.scope.toJson),
    ("entries", ofList entry b.entries), ("exclusions", ofList entry b.exclusions)]

def ofJson? (entry : Decoder (Entry Literal)) (v : Json) : Option (Book Literal) := do
  let [name, scope, entries, exclusions] ←
    slots? ["name", "scope", "entries", "exclusions"] v | none
  return ⟨← name.required text?, ← scope.required Scope.ofJson?,
    ← entries.withDefault (list? entry) [], ← exclusions.withDefault (list? entry) []⟩

end Book

namespace NetworkBook

def toJson : NetworkBook → Json := Book.toJson (Entry.toJson "network" Network.toJson)

def ofJson? : Decoder NetworkBook := Book.ofJson? (Entry.ofJson? "network" Network.ofJson?)

end NetworkBook

namespace ServiceBook

def toJson : ServiceBook → Json := Book.toJson (Entry.toJson "ports" PortEntry.toJson)

def ofJson? : Decoder ServiceBook := Book.ofJson? (Entry.ofJson? "ports" PortEntry.ofJson?)

end ServiceBook

namespace AclRule

def toJson (r : AclRule) : Json :=
  record [("index", ofNat r.index.toNat), ("action", r.action.toJson),
    ("source_zone", ofOption ofText r.sourceZone), ("source_book", ofOption ofText r.sourceBook),
    ("destination_zone", ofOption ofText r.destinationZone),
    ("destination_book", ofOption ofText r.destinationBook),
    ("service_book", ofOption ofText r.serviceBook),
    ("protocol", ofOption Protocol.toJson r.protocol), ("enabled", .bool r.enabled),
    ("description", ofOption ofText r.description)]

def ofJson? (v : Json) : Option AclRule := do
  let [index, action, sourceZone, sourceBook, destinationZone, destinationBook, serviceBook,
      protocol, enabled, description] ←
    slots? ["index", "action", "source_zone", "source_book", "destination_zone",
      "destination_book", "service_book", "protocol", "enabled", "description"] v | none
  return {
    index := ← index.required uint32?
    action := ← action.required Action.ofJson?
    sourceZone := ← sourceZone.optional text?
    sourceBook := ← sourceBook.optional text?
    destinationZone := ← destinationZone.optional text?
    destinationBook := ← destinationBook.optional text?
    serviceBook := ← serviceBook.optional text?
    protocol := ← protocol.optional Protocol.ofJson?
    enabled := ← enabled.withDefault bool? true
    description := ← description.optional text?
  }

end AclRule

namespace RuleSet

def toJson (rs : RuleSet) : Json :=
  record [("name", ofOption ofText rs.name), ("from_zone", ofText rs.fromZone),
    ("to_zone", ofText rs.toZone), ("default_action", rs.defaultAction.toJson),
    ("rules", ofList AclRule.toJson rs.rules)]

def ofJson? (v : Json) : Option RuleSet := do
  let [name, fromZone, toZone, defaultAction, rules] ←
    slots? ["name", "from_zone", "to_zone", "default_action", "rules"] v | none
  return ⟨← name.optional text?, ← fromZone.required text?, ← toZone.required text?,
    ← defaultAction.required Action.ofJson?, ← rules.withDefault (list? AclRule.ofJson?) []⟩

end RuleSet

namespace Interface

def toJson (i : Interface) : Json :=
  record [("name", ofText i.name), ("addresses", ofList Network.toJson i.addresses)]

def ofJson? (v : Json) : Option Interface := do
  let [name, addresses] ← slots? ["name", "addresses"] v | none
  return ⟨← name.required text?, ← addresses.withDefault (list? Network.ofJson?) []⟩

end Interface

namespace Zone

def toJson (z : Zone) : Json :=
  record [("name", ofText z.name), ("interfaces", ofList ofText z.interfaces),
    ("address_book", ofOption ofText z.addressBook)]

def ofJson? (v : Json) : Option Zone := do
  let [name, interfaces, addressBook] ← slots? ["name", "interfaces", "address_book"] v | none
  return ⟨← name.required text?, ← interfaces.withDefault (list? text?) [],
    ← addressBook.optional text?⟩

end Zone

namespace Route

def toJson (r : Route) : Json :=
  record [("destination", r.destination.toJson), ("next_hop", ofOption Address.toJson r.nextHop),
    ("interface", ofOption ofText r.interface)]

def ofJson? (v : Json) : Option Route := do
  let [destination, nextHop, interface] ← slots? ["destination", "next_hop", "interface"] v | none
  return ⟨← destination.required Network.ofJson?, ← nextHop.optional Address.ofJson?,
    ← interface.optional text?⟩

end Route

namespace Adjacency

def toJson (a : Adjacency) : Json :=
  record [("zone", ofText a.zone), ("peer_device", ofText a.peerDevice),
    ("peer_zone", ofText a.peerZone), ("bidirectional", .bool a.bidirectional)]

def ofJson? (v : Json) : Option Adjacency := do
  let [zone, peerDevice, peerZone, bidirectional] ←
    slots? ["zone", "peer_device", "peer_zone", "bidirectional"] v | none
  return ⟨← zone.required text?, ← peerDevice.required text?, ← peerZone.required text?,
    ← bidirectional.withDefault bool? true⟩

end Adjacency

namespace Device

def toJson (d : Device) : Json :=
  record [("id", ofText d.id), ("interfaces", ofList Interface.toJson d.interfaces),
    ("zones", ofList Zone.toJson d.zones), ("rule_sets", ofList RuleSet.toJson d.ruleSets),
    ("routes", ofList Route.toJson d.routes),
    ("adjacencies", ofList Adjacency.toJson d.adjacencies)]

def ofJson? (v : Json) : Option Device := do
  let [id, interfaces, zones, ruleSets, routes, adjacencies] ←
    slots? ["id", "interfaces", "zones", "rule_sets", "routes", "adjacencies"] v | none
  return ⟨← id.required text?, ← interfaces.withDefault (list? Interface.ofJson?) [],
    ← zones.withDefault (list? Zone.ofJson?) [], ← ruleSets.withDefault (list? RuleSet.ofJson?) [],
    ← routes.withDefault (list? Route.ofJson?) [],
    ← adjacencies.withDefault (list? Adjacency.ofJson?) []⟩

end Device

namespace Snapshot

def toJson (s : Snapshot) : Json :=
  record [("tool_run_id", ofOption Uuid.toJson s.toolRunId),
    ("devices", ofList Device.toJson s.devices),
    ("network_books", ofList NetworkBook.toJson s.networkBooks),
    ("service_books", ofList ServiceBook.toJson s.serviceBooks)]

def ofJson? (v : Json) : Option Snapshot := do
  let [toolRunId, devices, networkBooks, serviceBooks] ←
    slots? ["tool_run_id", "devices", "network_books", "service_books"] v | none
  return ⟨← toolRunId.optional Uuid.ofJson?, ← devices.withDefault (list? Device.ofJson?) [],
    ← networkBooks.withDefault (list? NetworkBook.ofJson?) [],
    ← serviceBooks.withDefault (list? ServiceBook.ofJson?) []⟩

/-- The snapshot that a document describes. -/
def ofText? (s : String) : Option Snapshot := (Json.read? s).bind ofJson?

/-- The document that is written for a snapshot. -/
def canonicalText (s : Snapshot) : String := s.toJson.compactText

/-- The hash that ties a result to the snapshot it was computed on. -/
def digest (s : Snapshot) : String := Blake3.hashText s.canonicalText

end Snapshot

end Perimeter
