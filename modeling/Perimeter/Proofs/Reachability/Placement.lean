import Perimeter.Proofs.Book.Catalog
import Perimeter.Proofs.Reachability.Certificate
import Perimeter.Proofs.Reachability.Rearrangement
import Perimeter.Proofs.Topology.Representation
import Perimeter.Proofs.Topology.Segments

/-!
Location never guesses. Which zones hold an address can be said from the snapshot
and its books alone: by the subnets on the interfaces that a zone lists, and by what
its address book covers. An address without a zone is located exactly when one zone
holds it, and otherwise the error says that none does or names all that do.
-/

namespace Perimeter

namespace Graph

variable {g : Graph} {a : Address} {i : Fin g.size}

theorem mem_zonesContaining_iff :
    i ∈ g.zonesContaining a ↔ (g.node i).networks.contains a = true := by
  simp [zonesContaining]

theorem nodup_zonesContaining (g : Graph) (a : Address) : (g.zonesContaining a).Nodup :=
  (List.nodup_finRange g.size).filter _

theorem locate_eq_ok_iff :
    g.locate a none = .ok i ↔ ∀ j, (g.node j).networks.contains a = true ↔ j = i := by
  have honly : g.zonesContaining a = [i] ↔ ∀ j, j ∈ g.zonesContaining a ↔ j = i := by
    rw [← List.perm_singleton,
      List.perm_ext_iff_of_nodup (g.nodup_zonesContaining a) (List.nodup_singleton i)]
    simp only [List.mem_singleton]
  simp only [← mem_zonesContaining_iff, ← honly, locate]
  split
  · rename_i hnone
    simp [hnone]
  · rename_i j hone
    simp [hone]
  · rename_i _ hsingle
    exact iff_of_false (by simp) fun hone => hsingle i hone

theorem locate_eq_noZone_iff :
    g.locate a none = .error (.noZone a) ↔ ∀ j, ¬(g.node j).networks.contains a = true := by
  simp only [← mem_zonesContaining_iff, ← List.eq_nil_iff_forall_not_mem, locate]
  split
  · rename_i hnone
    simp [hnone]
  · rename_i j hone
    simp [hone]
  · rename_i hempty _
    exact iff_of_false (by simp) fun hnone => hempty hnone

theorem locate_eq_ambiguousZone_iff {found : List ZoneRef} :
    g.locate a none = .error (.ambiguousZone a found) ↔
      found = (g.zonesContaining a).map g.zone ∧ ∃ j k, j ≠ k ∧
        (g.node j).networks.contains a = true ∧ (g.node k).networks.contains a = true := by
  simp only [← mem_zonesContaining_iff, locate]
  split
  · rename_i hnone
    simp [hnone]
  · rename_i i hone
    refine iff_of_false (by simp) ?_
    rintro ⟨_, j, k, hne, hj, hk⟩
    rw [hone, List.mem_singleton] at hj hk
    exact hne (hj.trans hk.symm)
  · rename_i hempty hsingle
    have hpair : ∃ j k, j ≠ k ∧ j ∈ g.zonesContaining a ∧ k ∈ g.zonesContaining a := by
      obtain ⟨j, hj⟩ := List.exists_mem_of_ne_nil _ hempty
      have hother := ((g.nodup_zonesContaining a).ne_singleton_iff j).mp (hsingle j)
      rcases hother with hnone | ⟨k, hk, hne⟩
      · exact absurd hnone hempty
      · exact ⟨k, j, hne, hk, hj⟩
    simp only [hpair, and_true, Except.error.injEq, QueryError.ambiguousZone.injEq, true_and]
    exact eq_comm

/-- What location answers in a graph whose nodes stand for the given zones, in order,
when it is known which zones hold an address. A named zone is taken at its word. Of
an address alone, the node is answered that stands for the only zone which holds it;
the error is that no zone does, or that several do, which are then all listed in order. -/
structure Locates (g : Graph) (zones : List ZoneRef) (holds : ZoneRef → Address → Prop) :
    Prop where
  order : (List.finRange g.size).map g.zone = zones
  distinct : zones.Nodup
  named : ∀ a, ∀ zone ∈ zones, ∃ i, g.zone i = zone ∧ g.locate a (some zone) = .ok i
  unknown : ∀ a, ∀ zone ∉ zones, g.locate a (some zone) = .error (.unknownZone zone)
  only : ∀ a i, g.locate a none = .ok i ↔ ∀ zone, holds zone a ↔ zone = g.zone i
  nowhere : ∀ a, g.locate a none = .error (.noZone a) ↔ ∀ zone, ¬holds zone a
  several : ∀ a, (∃ found, g.locate a none = .error (.ambiguousZone a found)) ↔
    ∃ zone other, zone ≠ other ∧ holds zone a ∧ holds other a
  listed : ∀ a found, g.locate a none = .error (.ambiguousZone a found) →
    found.Sublist zones ∧ ∀ zone, zone ∈ found ↔ holds zone a

/-- A graph whose zones have one node each locates addresses by what the nodes contain. -/
theorem locates_of_contains {zones : List ZoneRef} {holds : ZoneRef → Address → Prop}
    (hinjective : Function.Injective g.zone) (horder : (List.finRange g.size).map g.zone = zones)
    (hholds : ∀ zone a, holds zone a ↔
      ∃ i, g.zone i = zone ∧ (g.node i).networks.contains a = true) :
    g.Locates zones holds := by
  have hnode : ∀ i a, holds (g.zone i) a ↔ (g.node i).networks.contains a = true := by
    intro i a
    rw [hholds]
    constructor
    · rintro ⟨j, hzone, hj⟩
      exact hinjective hzone ▸ hj
    · exact fun hi => ⟨i, rfl, hi⟩
  have hmem : ∀ zone, zone ∈ zones ↔ ∃ i, g.zone i = zone := by
    intro zone
    simp [← horder]
  refine ⟨horder, ?_, ?_, ?_, ?_, ?_, ?_, ?_⟩
  · exact horder ▸ (List.nodup_finRange g.size).map hinjective
  · intro a zone hzone
    obtain ⟨i, rfl⟩ := (hmem zone).mp hzone
    exact ⟨i, rfl, locate_zone hinjective i a⟩
  · intro a zone hzone
    have hmissing := index?_eq_none_iff.mpr fun i hi => hzone ((hmem zone).mpr ⟨i, hi⟩)
    rw [locate, hmissing]
  · intro a i
    rw [locate_eq_ok_iff]
    constructor
    · intro honly zone
      rw [hholds]
      constructor
      · rintro ⟨j, rfl, hj⟩
        rw [(honly j).mp hj]
      · rintro rfl
        exact ⟨i, rfl, (honly i).mpr rfl⟩
    · intro honly j
      rw [← hnode, honly]
      exact hinjective.eq_iff
  · intro a
    rw [locate_eq_noZone_iff]
    constructor
    · intro hnone zone hzone
      obtain ⟨i, _, hi⟩ := (hholds zone a).mp hzone
      exact hnone i hi
    · exact fun hnone i hi => hnone (g.zone i) ((hnode i a).mpr hi)
  · intro a
    simp only [locate_eq_ambiguousZone_iff]
    constructor
    · rintro ⟨_, _, i, j, hne, hi, hj⟩
      exact ⟨g.zone i, g.zone j, hinjective.ne hne, (hnode i a).mpr hi, (hnode j a).mpr hj⟩
    · rintro ⟨zone, other, hne, hzone, hother⟩
      obtain ⟨i, rfl, hi⟩ := (hholds zone a).mp hzone
      obtain ⟨j, rfl, hj⟩ := (hholds other a).mp hother
      exact ⟨_, rfl, i, j, fun heq => hne (congrArg g.zone heq), hi, hj⟩
  · intro a found herror
    obtain ⟨rfl, _⟩ := locate_eq_ambiguousZone_iff.mp herror
    refine ⟨horder ▸ List.filter_sublist.map g.zone, ?_⟩
    intro zone
    rw [hholds, List.mem_map]
    simp only [mem_zonesContaining_iff, and_comm]

end Graph

/-- The zone has the book for the addresses behind it. -/
def NamesAddressBook (devices : List Device) (zone : ZoneRef) (book : String) : Prop :=
  ∃ d ∈ devices, d.id = zone.device ∧ ∃ z ∈ d.zones, z.name = zone.zone ∧
    z.addressBook = some book

/-- A zone holds an address: an interface that it lists has a subnet with the address
in it, or its address book covers the address, as seen from its device. -/
def Snapshot.Holds (s : Snapshot) (c : Catalog) (zone : ZoneRef) (a : Address) : Prop :=
  (∃ n, HasAddress s.devices zone n ∧ n.contains a = true) ∨
    ∃ book, NamesAddressBook s.devices zone book ∧
      c.networks.NameCovers book (.device zone.device) a

section Holds

variable {s : Snapshot} {c : Catalog} {d : Device} {r : ResolvedDevice} {z : Zone} {a : Address}

theorem Shelf.Provides.contains_iff {book : Option String} {scope : Scope} {set : NetworkSet}
    (h : c.networks.Provides .empty book scope set) :
    set.contains a = true ↔ ∃ name, book = some name ∧ c.networks.NameCovers name scope a := by
  cases book with
  | none =>
    obtain rfl : set = .empty := h
    simp
  | some name =>
    have hstands : c.networks.StandsFor name scope set := h
    have hcovers := (hstands.nameCovers_iff a).symm
    refine hcovers.trans ?_
    simp

/-- The networks of a node are the subnets of its zone and what the zone's book covers. -/
theorem ResolvedDevice.Renders.contains_zoneNetworks_iff (hr : r.Renders c d)
    (hnames : (d.zones.map Zone.name).Nodup) (hz : z ∈ d.zones) :
    (r.zoneNetworks d z).contains a = true ↔
      (∃ n ∈ d.zoneAddresses z, n.contains a = true) ∨
        ∃ name, z.addressBook = some name ∧ c.networks.NameCovers name (.device d.id) a := by
  obtain ⟨slots, hslots, hbooks⟩ := hr.zoneBooks
  obtain ⟨slot, hpair⟩ := exists_mem_zip_left hslots.length_eq hz
  have hprovides := (List.forall₂_zip hslots hpair).provides
  unfold ResolvedDevice.zoneNetworks
  rw [hbooks, lookup_of_fills hslots hnames hpair, NetworkSet.contains_union,
    NetworkSet.contains_ofNetworks, hprovides.contains_iff]

/-- Where devices and zones have names of their own, a zone holds what its one
declaration gives it. -/
theorem Snapshot.Valid.holds_iff (hvalid : s.Valid) (hd : d ∈ s.devices) (hz : z ∈ d.zones) :
    s.Holds c ⟨d.id, z.name⟩ a ↔
      (∃ n ∈ d.zoneAddresses z, n.contains a = true) ∨
        ∃ name, z.addressBook = some name ∧ c.networks.NameCovers name (.device d.id) a := by
  have hdevice : ∀ other ∈ s.devices, other.id = d.id → other = d :=
    fun other hother hid => List.inj_on_of_nodup_map hvalid.distinct hother hd hid
  have hzone : ∀ other ∈ d.zones, other.name = z.name → other = z :=
    fun other hother hname => List.inj_on_of_nodup_map (hvalid.devices d hd).zones hother hz hname
  constructor
  · rintro (⟨n, ⟨other, hother, hid, other', hother', hname, hn⟩, ha⟩ |
      ⟨book, ⟨other, hother, hid, other', hother', hname, hbook⟩, ha⟩)
    · obtain rfl := hdevice other hother hid
      obtain rfl := hzone other' hother' hname
      exact Or.inl ⟨n, Device.mem_zoneAddresses_iff.mpr hn, ha⟩
    · obtain rfl := hdevice other hother hid
      obtain rfl := hzone other' hother' hname
      exact Or.inr ⟨book, hbook, ha⟩
  · rintro (⟨n, hn, ha⟩ | ⟨book, hbook, ha⟩)
    · exact Or.inl ⟨n, ⟨d, hd, rfl, z, hz, rfl, Device.mem_zoneAddresses_iff.mp hn⟩, ha⟩
    · exact Or.inr ⟨book, ⟨d, hd, rfl, z, hz, rfl, hbook⟩, ha⟩

/-- A zone that holds anything is declared. -/
theorem Snapshot.Holds.exists_declaration {zone : ZoneRef} (h : s.Holds c zone a) :
    ∃ d ∈ s.devices, ∃ z ∈ d.zones, zone = ⟨d.id, z.name⟩ := by
  rcases h with ⟨_, ⟨d, hd, hid, z, hz, hname, _⟩, _⟩ | ⟨_, ⟨d, hd, hid, z, hz, hname, _⟩, _⟩
  · exact ⟨d, hd, z, hz, by rw [hid, hname]⟩
  · exact ⟨d, hd, z, hz, by rw [hid, hname]⟩

end Holds

/-- In the graph that is built for a resolved snapshot, the zones that hold an address
are those whose nodes contain it. -/
theorem Graph.holds_iff_exists_node {s : Snapshot} {resolved : ResolvedSnapshot}
    {inference : Inference} {g : Graph} {c : Catalog} (hvalid : s.Valid)
    (hsame : resolved.snapshot = s)
    (hdevices : List.Forall₂ (fun d (r : ResolvedDevice) => r.Renders c d) s.devices
      resolved.devices)
    (hbuild : build resolved inference = .ok g) (zone : ZoneRef) (a : Address) :
    s.Holds c zone a ↔ ∃ i, g.zone i = zone ∧ (g.node i).networks.contains a = true := by
  subst hsame
  have hnodes := nodes_of_build hbuild
  constructor
  · intro hholds
    obtain ⟨d, hd, z, hz, rfl⟩ := hholds.exists_declaration
    obtain ⟨r, hpair⟩ := exists_mem_zip_left hdevices.length_eq hd
    have hrenders := List.forall₂_zip hdevices hpair
    obtain ⟨i, hi⟩ := exists_node
      (hnodes ▸ ResolvedSnapshot.mem_nodes_iff_exists.mpr ⟨d, r, hpair, z, hz, rfl⟩)
    refine ⟨i, by rw [Graph.zone, hi], ?_⟩
    rw [hi, hrenders.contains_zoneNetworks_iff (hvalid.devices d hd).zones hz]
    exact (hvalid.holds_iff hd hz).mp hholds
  · rintro ⟨i, rfl, hi⟩
    obtain ⟨d, r, hpair, z, hz, hnode⟩ :=
      ResolvedSnapshot.mem_nodes_iff_exists.mp (hnodes ▸ node_mem i)
    have hd := (List.of_mem_zip hpair).1
    have hrenders := List.forall₂_zip hdevices hpair
    rw [Graph.zone, hnode, hvalid.holds_iff hd hz]
    rw [hnode, hrenders.contains_zoneNetworks_iff (hvalid.devices d hd).zones hz] at hi
    exact hi

namespace Engine

/-- A loaded engine locates addresses by the zones that hold them. With a zone that is
declared, it answers the node of that zone, and with any other that there is no such
zone, whatever the address is. Without one, it answers a node exactly when the zone of
that node is the only one to hold the address, that there is no zone exactly when none
holds it, and exactly when two or more do it names them all in the order of nodes. -/
theorem locate_exact {s : Snapshot} {config : EngineConfig} {e : Engine}
    (hload : load s config = .ok e) :
    ∃ c, Catalog.ofBooks s.networkBooks s.serviceBooks config.builtinBooks = .ok c ∧
      e.graph.Locates s.zoneRefs (s.Holds c) := by
  obtain ⟨hresolve, hbuild⟩ := load_eq_ok_iff.mp hload
  have hvalid := (Snapshot.booksValid_of_resolve hresolve).1
  have hfault := (Snapshot.resolve_eq_ok_iff.mp hresolve).1
  obtain ⟨hsame, c, hcatalog, hdevices, _, _⟩ := Snapshot.renders_of_resolve hresolve
  have hinjective := Graph.zone_injective hbuild (hsame ▸ hfault)
  have horder := ResolvedSnapshot.map_zone_nodes (hsame.symm ▸ hdevices.length_eq)
  rw [← Graph.nodes_of_build hbuild, ← Graph.map_node_finRange, List.map_map, hsame] at horder
  refine ⟨c, hcatalog, Graph.locates_of_contains hinjective horder ?_⟩
  exact Graph.holds_iff_exists_node hvalid hsame hdevices hbuild

/-- Two devices with subnets of which one is part of the other. One of them also has a
zone with a book, and an interface that it does not have is listed. -/
def overlap : Snapshot where
  toolRunId := none
  devices := [
    ⟨"edge", [⟨"in", [⟨⟨.v4, 170393601, by decide⟩, 25, by decide⟩]⟩],
      [⟨"lan", ["in", "spare"], none⟩, ⟨"wan", [], some "branch"⟩], [], [], []⟩,
    ⟨"core", [⟨"up", [⟨⟨.v4, 170393602, by decide⟩, 26, by decide⟩]⟩], [⟨"lan", ["up"], none⟩],
      [], [], []⟩]
  networkBooks := [⟨"branch", .global,
    [.literal ⟨⟨.v6, 170395648, by decide⟩, 127, by decide⟩], []⟩]
  serviceBooks := []

private def overlapCatalog : Catalog := ⟨.ofDistinct overlap.networkBooks (by decide), .empty⟩

private def overlapConfig : EngineConfig := ⟨.explicitOnly, true, false⟩

private theorem overlap_loads : ∃ e, load overlap overlapConfig = .ok e := by
  have hresolves : ∃ resolved, overlap.resolve false = .ok resolved :=
    Snapshot.exists_resolve (c := overlapCatalog) (by decide) rfl (by decide +kernel)
  obtain ⟨resolved, hresolved⟩ := hresolves
  obtain ⟨hvalid, hbooks⟩ := Snapshot.booksValid_of_resolve hresolved
  have hgraph : overlap.GraphValid := by
    refine ⟨by decide, ?_⟩
    unfold Snapshot.Declares
    decide
  exact Snapshot.WellFormed.exists_load ⟨hvalid, hbooks, hgraph⟩

theorem overlap_located :
    ∃ e c, load overlap overlapConfig = .ok e ∧
      Catalog.ofBooks overlap.networkBooks overlap.serviceBooks overlapConfig.builtinBooks = .ok c ∧
      e.graph.Locates overlap.zoneRefs (overlap.Holds c) ∧
      ∃ found, e.graph.locate ⟨.v4, 170393603, by decide⟩ none =
        .error (.ambiguousZone ⟨.v4, 170393603, by decide⟩ found) := by
  obtain ⟨e, hload⟩ := overlap_loads
  obtain ⟨c, hcatalog, hlocates⟩ := locate_exact hload
  refine ⟨e, c, hload, hcatalog, hlocates, (hlocates.several _).mpr ?_⟩
  refine ⟨⟨"edge", "lan"⟩, ⟨"core", "lan"⟩, by decide, Or.inl ?_, Or.inl ?_⟩
  · refine ⟨⟨⟨.v4, 170393601, by decide⟩, 25, by decide⟩, ?_, by decide⟩
    exact mem_zonedAddresses_iff.mp (by decide)
  · refine ⟨⟨⟨.v4, 170393602, by decide⟩, 26, by decide⟩, ?_, by decide⟩
    exact mem_zonedAddresses_iff.mp (by decide)

end Engine

end Perimeter
