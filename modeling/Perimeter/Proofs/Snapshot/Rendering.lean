import Perimeter.Proofs.Book.Reordering
import Perimeter.Proofs.Snapshot.RuleSets

/-!
What a resolved device consists of. A rule gets the sets for which its names
stand, and a zone with an address book the set of the book. This leaves resolution
no choice: rules are resolved alike from catalogs in which names stand for the same
sets, as they do where catalogs differ only in the order of books and of the items
in them.
-/

namespace Perimeter

namespace Shelf

variable {Literal Set : Type} [BookSet Literal Set] {shelf shelf' : Shelf Literal}

theorem StandsFor.unique {name : String} {scope : Scope} {set set' : Set}
    (h : shelf.StandsFor name scope set) (h' : shelf.StandsFor name scope set') : set = set' := by
  obtain ⟨key, hlookup, hset⟩ := h
  obtain ⟨key', hlookup', hset'⟩ := h'
  cases Option.some.inj (hlookup.symm.trans hlookup')
  exact hset.unique hset'

/-- The set for which a name stands, or another one where no book is named. -/
def Provides (shelf : Shelf Literal) (otherwise : Set) (book : Option String) (scope : Scope)
    (set : Set) : Prop :=
  match book with
  | some name => shelf.StandsFor name scope set
  | none => set = otherwise

/-- Names that stand for a set on a shelf stand for it on another one as well. -/
def Keeps (shelf shelf' : Shelf Literal) : Prop :=
  ∀ name scope (set : Set), shelf.StandsFor name scope set → shelf'.StandsFor name scope set

theorem Keeps.provided_eq (h : shelf.Keeps shelf') {otherwise : Set} {book : Option String}
    {scope : Scope} {set set' : Set} (hset : shelf.Provides otherwise book scope set)
    (hset' : shelf'.Provides otherwise book scope set') : set = set' := by
  cases book with
  | none => exact Eq.trans hset (Eq.symm hset')
  | some name => exact (h name scope set hset).unique hset'

end Shelf

/-- A resolved rule has the sets that a configured one names, the services cut
down to its protocol if it has one. -/
structure ResolvedRule.Renders (resolved : ResolvedRule) (c : Catalog) (scope : Scope)
    (rule : AclRule) : Prop where
  index : resolved.index = rule.index
  action : resolved.action = rule.action
  source : c.networks.Provides .any rule.sourceBook scope resolved.source
  destination : c.networks.Provides .any rule.destinationBook scope resolved.destination
  services : ∃ set, c.services.Provides .any rule.serviceBook scope set ∧
    resolved.services = rule.protocol.elim set set.restrictTo
  description : resolved.description = rule.description

/-- A resolved rule set has the enabled rules of a configured one, in order. -/
structure ResolvedRuleSet.Renders (resolved : ResolvedRuleSet) (c : Catalog) (device : String)
    (rs : RuleSet) : Prop where
  id : resolved.id = rs.id device
  defaultAction : resolved.defaultAction = rs.defaultAction
  rules : List.Forall₂ (fun rule r => ResolvedRule.Renders r c (.device device) rule)
    (rs.rules.filter (·.enabled)) resolved.rules

structure ResolvedDevice.Renders (resolved : ResolvedDevice) (c : Catalog) (d : Device) :
    Prop where
  id : resolved.id = d.id
  ruleSets : List.Forall₂ (fun rs r => ResolvedRuleSet.Renders r c d.id rs) d.ruleSets
    resolved.ruleSets
  zoneBooks : c.HasZoneBooks d resolved.zoneBooks

namespace Catalog

section Found

variable {r : Resolver}

theorem finds_providedNetwork (hshared : r.catalog.Sound r.shared) (book : Option String)
    (scope : Scope) :
    r.catalog.Finds (r.networkOrAny book scope) (r.catalog.networks.Provides .any book scope) := by
  cases book with
  | none => exact finds_pure rfl
  | some name => exact finds_network hshared name scope

theorem finds_providedService (hshared : r.catalog.Sound r.shared) (book : Option String)
    (scope : Scope) :
    r.catalog.Finds (r.serviceOrAny book scope) (r.catalog.services.Provides .any book scope) := by
  cases book with
  | none => exact finds_pure rfl
  | some name => exact finds_service hshared name scope

theorem finds_renderedRule (hshared : r.catalog.Sound r.shared) (scope : Scope) (rule : AclRule) :
    r.catalog.Finds (r.rule scope rule) fun resolved => resolved.Renders r.catalog scope rule := by
  apply (finds_providedNetwork hshared rule.sourceBook scope).bind
  intro source hsource
  apply (finds_providedNetwork hshared rule.destinationBook scope).bind
  intro destination hdestination
  apply (finds_providedService hshared rule.serviceBook scope).bind
  intro services hservices
  apply finds_pure
  refine ⟨rfl, rfl, hsource, hdestination, ⟨services, hservices, ?_⟩, rfl⟩
  cases rule.protocol with
  | none => rfl
  | some p => rfl

theorem finds_renderedRuleSet (hshared : r.catalog.Sound r.shared) (device : String)
    (rs : RuleSet) :
    r.catalog.Finds (r.ruleSet device rs) fun resolved => resolved.Renders r.catalog device rs :=
  (finds_enabledRules (finds_renderedRule hshared (.device device)) rs).mono
    fun _ ⟨hid, hdefault, hrules⟩ => ⟨hid, hdefault, hrules⟩

theorem finds_renderedDevice (hshared : r.catalog.Sound r.shared) (d : Device) :
    r.catalog.Finds (r.device d) fun resolved => resolved.Renders r.catalog d :=
  (finds_parts hshared d (finds_renderedRuleSet hshared d.id)).mono
    fun _ ⟨hid, hruleSets, hzoneBooks⟩ => ⟨hid, hruleSets, hzoneBooks⟩

end Found

/-- Names of either kind that stand for a set stand for it in the other catalog as well. -/
structure Keeps (c c' : Catalog) : Prop where
  networks : c.networks.Keeps c'.networks
  services : c.services.Keeps c'.services

theorem Reordered.keeps {c c' : Catalog} (h : c.Reordered c') : c.Keeps c' :=
  ⟨fun _ _ _ => h.networks.standsFor, fun _ _ _ => h.services.standsFor⟩

namespace Keeps

variable {c c' : Catalog}

theorem rule_eq (h : c.Keeps c') {scope : Scope} {rule : AclRule} {r r' : ResolvedRule}
    (hr : r.Renders c scope rule) (hr' : r'.Renders c' scope rule) : r = r' := by
  obtain ⟨set, hset, hservices⟩ := hr.services
  obtain ⟨set', hset', hservices'⟩ := hr'.services
  cases h.services.provided_eq hset hset'
  have hsource := h.networks.provided_eq hr.source hr'.source
  have hdestination := h.networks.provided_eq hr.destination hr'.destination
  cases r
  cases r'
  congr
  · exact hr.index.trans hr'.index.symm
  · exact hr.action.trans hr'.action.symm
  · exact hservices.trans hservices'.symm
  · exact hr.description.trans hr'.description.symm

theorem ruleSet_eq (h : c.Keeps c') {device : String} {rs : RuleSet} {r r' : ResolvedRuleSet}
    (hr : r.Renders c device rs) (hr' : r'.Renders c' device rs) : r = r' := by
  have hrules : r.rules = r'.rules :=
    eq_of_forall₂ hr.rules hr'.rules fun _ _ _ hrule hrule' => h.rule_eq hrule hrule'
  cases r
  cases r'
  congr
  · exact hr.id.trans hr'.id.symm
  · exact hr.defaultAction.trans hr'.defaultAction.symm

/-- The address books of devices with the same zones are the same. -/
theorem zoneBooks_eq (h : c.Keeps c') {d d' : Device} (hid : d.id = d'.id)
    (hzones : d.zones = d'.zones) {books books' : List (String × NetworkSet)}
    (hbooks : c.HasZoneBooks d books) (hbooks' : c'.HasZoneBooks d' books') : books = books' := by
  obtain ⟨slots, hslots, rfl⟩ := hbooks
  obtain ⟨slots', hslots', rfl⟩ := hbooks'
  rw [← hid, ← hzones] at hslots'
  rw [eq_of_forall₂ hslots hslots']
  intro z slot slot' hslot hslot'
  unfold Zone.Fills at hslot hslot'
  cases hbook : z.addressBook with
  | none =>
    rw [hbook] at hslot hslot'
    exact Eq.trans hslot (Eq.symm hslot')
  | some book =>
    rw [hbook] at hslot hslot'
    obtain ⟨set, hset, rfl⟩ := hslot
    obtain ⟨set', hset', rfl⟩ := hslot'
    rw [(h.networks book (.device d.id) set hset).unique hset']

end Keeps

end Catalog

end Perimeter
