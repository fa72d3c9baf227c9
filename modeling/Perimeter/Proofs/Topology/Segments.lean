import Perimeter.Proofs.Network.Agreement
import Perimeter.Proofs.Topology.Linked
import Perimeter.Proofs.Topology.Reordering

/-!
Links between zones on one segment. Interfaces are gone through in pairs, each pair
once and in one direction, and a pair of zones keeps the first link that is made for
it. The outcome can be said without any of this: zones are linked when an adjacency
says so, or when addresses on their interfaces agree as far as the shorter of the two
prefixes goes. Links of the second kind always come in pairs.
-/

namespace Perimeter

/-- An adjacency of one of the devices links the zones in this direction. -/
def DeclaresLink (devices : List Device) (source target : ZoneRef) : Prop :=
  ∃ d ∈ devices, ∃ a ∈ d.adjacencies, (source = a.here d.id ∧ target = a.peer) ∨
    (a.bidirectional = true ∧ source = a.peer ∧ target = a.here d.id)

/-- An interface of the zone, the first that its device has under a name which the zone
lists, has the address. -/
def HasAddress (devices : List Device) (zone : ZoneRef) (a : Network) : Prop :=
  ∃ d ∈ devices, d.id = zone.device ∧ ∃ z ∈ d.zones, z.name = zone.zone ∧
    ∃ name ∈ z.interfaces, ∃ i, d.interface? name = some i ∧ a ∈ i.addresses

/-- Zones of different devices have interfaces on one segment: neither address stands
for a host alone, and the two agree as far as the shorter prefix goes. -/
structure OnSegment (devices : List Device) (source target : ZoneRef) (a b : Network) : Prop where
  device_ne : source.device ≠ target.device
  source_has : HasAddress devices source a
  target_has : HasAddress devices target b
  source_subnet : a.length ≠ a.address.family.width
  target_subnet : b.length ≠ b.address.family.width
  agrees : a.Agrees b

/-- The wider of two networks with its host bits cleared, which holds both addresses. -/
def SpannedBy (subnet a b : Network) : Prop :=
  (∃ wide, (wide = a ∨ wide = b) ∧ wide.length = min a.length b.length ∧ subnet = wide.masked) ∧
    subnet.contains a.address = true ∧ subnet.contains b.address = true

variable {devices : List Device} {source target : ZoneRef}

theorem mem_ends_declaredLinks_iff :
    (source, target) ∈ (devices.flatMap Device.declaredLinks).map Link.ends ↔
      DeclaresLink devices source target := by
  constructor
  · intro h
    obtain ⟨l, hl, hends⟩ := List.mem_map.mp h
    obtain ⟨d, hd, hl⟩ := List.mem_flatMap.mp hl
    obtain ⟨a, ha, hl⟩ := List.mem_flatMap.mp hl
    obtain ⟨rfl, rfl⟩ := Prod.mk.inj hends
    refine ⟨d, hd, a, ha, ?_⟩
    rcases Adjacency.mem_links_iff.mp hl with rfl | ⟨hback, rfl⟩
    · exact Or.inl ⟨rfl, rfl⟩
    · exact Or.inr ⟨hback, rfl, rfl⟩
  · rintro ⟨d, hd, a, ha, hends⟩
    have hdeclared : ∀ {l : Link}, l ∈ a.links d.id →
        l.ends ∈ (devices.flatMap Device.declaredLinks).map Link.ends := fun hl =>
      List.mem_map_of_mem (List.mem_flatMap.mpr ⟨d, hd, List.mem_flatMap.mpr ⟨a, ha, hl⟩⟩)
    rcases hends with ⟨rfl, rfl⟩ | ⟨hback, rfl, rfl⟩
    · exact hdeclared (Adjacency.mem_links_iff.mpr (Or.inl rfl))
    · exact hdeclared (Adjacency.mem_links_iff.mpr (Or.inr ⟨hback, rfl⟩))

theorem Device.mem_zoneAddresses_iff {d : Device} {z : Zone} {a : Network} :
    a ∈ d.zoneAddresses z ↔
      ∃ name ∈ z.interfaces, ∃ i, d.interface? name = some i ∧ a ∈ i.addresses := by
  unfold zoneAddresses
  rw [List.mem_flatMap]
  apply exists_congr
  intro name
  apply and_congr_right
  intro _
  cases d.interface? name <;> simp

theorem mem_zonedAddresses_iff {zone : ZoneRef} {a : Network} :
    (zone, a) ∈ devices.flatMap Device.zonedAddresses ↔ HasAddress devices zone a := by
  constructor
  · intro h
    obtain ⟨d, hd, h⟩ := List.mem_flatMap.mp h
    obtain ⟨z, hz, h⟩ := List.mem_flatMap.mp h
    obtain ⟨_, ha, hentry⟩ := List.mem_map.mp h
    obtain ⟨rfl, rfl⟩ := Prod.mk.inj hentry
    exact ⟨d, hd, rfl, z, hz, rfl, Device.mem_zoneAddresses_iff.mp ha⟩
  · rintro ⟨d, hd, hid, z, hz, hname, ha⟩
    have hzone : zone = ⟨d.id, z.name⟩ := by rw [hid, hname]
    rw [hzone]
    refine List.mem_flatMap.mpr ⟨d, hd, List.mem_flatMap.mpr ⟨z, hz, ?_⟩⟩
    exact List.mem_map_of_mem (Device.mem_zoneAddresses_iff.mpr ha)

theorem mem_zonedSubnets_iff {zone : ZoneRef} {a : Network} :
    (zone, a) ∈ zonedSubnets devices ↔
      HasAddress devices zone a ∧ a.length ≠ a.address.family.width := by
  rw [zonedSubnets, List.mem_filter, mem_zonedAddresses_iff]
  simp [Network.isHost]

/-- What is asked of two interfaces, in terms of their zones and addresses. -/
theorem onSegment_iff {a b : Network} :
    OnSegment devices source target a b ↔
      (source, a) ∈ zonedSubnets devices ∧ (target, b) ∈ zonedSubnets devices ∧
        SharesSegment (source, a) (target, b) := by
  rw [mem_zonedSubnets_iff, mem_zonedSubnets_iff, SharesSegment,
    Network.contains_or_contains_iff]
  constructor
  · intro h
    exact ⟨⟨h.source_has, h.source_subnet⟩, ⟨h.target_has, h.target_subnet⟩, h.device_ne, h.agrees⟩
  · rintro ⟨⟨hsource, hsubnet⟩, ⟨htarget, hsubnet'⟩, hne, hagrees⟩
    exact ⟨hne, hsource, htarget, hsubnet, hsubnet', hagrees⟩

/-- The subnet that is named for two interfaces. -/
def spanning (a b : Network) : Network := if a.length ≤ b.length then a.masked else b.masked

theorem spannedBy_spanning {a b : Network} (h : a.Agrees b) : SpannedBy (spanning a b) a b := by
  unfold spanning
  split
  · rename_i hle
    refine ⟨⟨a, Or.inl rfl, (Nat.min_eq_left hle).symm, rfl⟩, ?_, ?_⟩
    · exact Network.contains_masked.mpr a.contains_self
    · exact Network.contains_masked.mpr (h.contains hle)
  · rename_i hlt
    have hle := Nat.le_of_not_le hlt
    refine ⟨⟨b, Or.inr rfl, (Nat.min_eq_right hle).symm, rfl⟩, ?_, ?_⟩
    · exact Network.contains_masked.mpr (h.symm.contains hle)
    · exact Network.contains_masked.mpr b.contains_self

theorem SpannedBy.symm {subnet a b : Network} (h : SpannedBy subnet a b) :
    SpannedBy subnet b a := by
  obtain ⟨⟨wide, hwide, hlength, hsubnet⟩, ha, hb⟩ := h
  exact ⟨⟨wide, hwide.symm, hlength.trans (Nat.min_comm _ _), hsubnet⟩, hb, ha⟩

theorem OnSegment.symm {a b : Network} (h : OnSegment devices source target a b) :
    OnSegment devices target source b a :=
  ⟨h.device_ne.symm, h.target_has, h.source_has, h.target_subnet, h.source_subnet, h.agrees.symm⟩

/-- A link for a shared subnet names the subnet that spans two interfaces of its zones. -/
theorem exists_segment_of_mem {l : Link} (h : l ∈ sharedSubnetLinks devices) :
    ∃ a b subnet, OnSegment devices l.source l.target a b ∧ SpannedBy subnet a b ∧
      l.reason = .sharedSubnet subnet := by
  obtain ⟨⟨⟨z, a⟩, w, b⟩, hpair, hl⟩ := List.mem_flatMap.mp h
  obtain ⟨hz, hw⟩ := mem_of_mem_laterPairs hpair
  by_cases hshares : SharesSegment (z, a) (w, b)
  · have hsegment : OnSegment devices z w a b := onSegment_iff.mpr ⟨hz, hw, hshares⟩
    have hspans := spannedBy_spanning hsegment.agrees
    have hlinks : subnetLinks ((z, a), w, b) =
        [⟨z, w, .sharedSubnet (spanning a b)⟩, ⟨w, z, .sharedSubnet (spanning a b)⟩] :=
      if_pos hshares
    rw [hlinks, List.mem_cons, List.mem_singleton] at hl
    rcases hl with rfl | rfl
    · exact ⟨a, b, _, hsegment, hspans, rfl⟩
    · exact ⟨b, a, _, hsegment.symm, hspans.symm, rfl⟩
  · have hnone : subnetLinks ((z, a), w, b) = [] := if_neg hshares
    rw [hnone] at hl
    cases hl

theorem mem_ends_sharedSubnetLinks_iff_onSegment :
    (source, target) ∈ (sharedSubnetLinks devices).map Link.ends ↔
      ∃ a b, OnSegment devices source target a b := by
  rw [mem_ends_sharedSubnetLinks_iff]
  constructor
  · rintro ⟨⟨z, a⟩, hz, ⟨w, b⟩, hw, hshares, hends⟩
    obtain ⟨rfl, rfl⟩ := Prod.mk.inj hends
    exact ⟨a, b, onSegment_iff.mpr ⟨hz, hw, hshares⟩⟩
  · rintro ⟨a, b, hsegment⟩
    obtain ⟨hz, hw, hshares⟩ := onSegment_iff.mp hsegment
    exact ⟨(source, a), hz, (target, b), hw, hshares, rfl⟩

namespace Inference

variable {inference : Inference}

/-- Of the links between two zones the declared one is kept; an inferred one is kept
only where none is declared. -/
theorem declared_or_inferred {l : Link} (h : l ∈ inference.links devices) :
    (DeclaresLink devices l.source l.target ∧ l.reason = .declared) ∨
      (¬DeclaresLink devices l.source l.target ∧ l ∈ inference.inferredLinks devices) := by
  obtain ⟨_, _, hfirst⟩ := mem_distinctPairs_iff.mp h
  rw [List.find?_append, Option.or_eq_some_iff] at hfirst
  rw [← mem_ends_declaredLinks_iff]
  rcases hfirst with hdeclared | ⟨hnone, hinferred⟩
  · have hmem := List.mem_of_find?_eq_some hdeclared
    obtain ⟨d, _, hl⟩ := List.mem_flatMap.mp hmem
    exact Or.inl ⟨List.mem_map_of_mem hmem, Device.reason_of_declaredLinks hl⟩
  · refine Or.inr ⟨fun hdeclared => ?_, List.mem_of_find?_eq_some hinferred⟩
    obtain ⟨l', hl', hends⟩ := List.mem_map.mp hdeclared
    exact List.find?_eq_none.mp hnone l' hl' (beq_iff_eq.mpr hends)

/-- Under the strategy for shared subnets, zones are linked when an adjacency says so
or when they have interfaces on one segment, each pair once. Pairs with an adjacency
are linked for it, all others for a subnet that spans two such interfaces. Where a
subnet is the reason, the zones are linked the other way round as well. -/
theorem sharedSubnet_links_exact (devices : List Device) :
    (∀ z w, (z, w) ∈ (sharedSubnet.links devices).map Link.ends ↔
      z ≠ w ∧ (DeclaresLink devices z w ∨ ∃ a b, OnSegment devices z w a b)) ∧
    ((sharedSubnet.links devices).map Link.ends).Nodup ∧
    (∀ l ∈ sharedSubnet.links devices,
      (DeclaresLink devices l.source l.target → l.reason = .declared) ∧
      (¬DeclaresLink devices l.source l.target →
        ∃ a b subnet, OnSegment devices l.source l.target a b ∧ SpannedBy subnet a b ∧
          l.reason = .sharedSubnet subnet)) ∧
    ∀ l ∈ sharedSubnet.links devices, ∀ subnet, l.reason = .sharedSubnet subnet →
      (l.target, l.source) ∈ (sharedSubnet.links devices).map Link.ends := by
  have hlinked : ∀ z w, (z, w) ∈ (sharedSubnet.links devices).map Link.ends ↔
      z ≠ w ∧ (DeclaresLink devices z w ∨ ∃ a b, OnSegment devices z w a b) := by
    intro z w
    rw [mem_ends_links_iff, mem_ends_declaredLinks_iff]
    exact and_congr_right fun _ => or_congr_right mem_ends_sharedSubnetLinks_iff_onSegment
  refine ⟨hlinked, nodup_distinctPairs [] _, ?_, ?_⟩
  · intro l hl
    rcases declared_or_inferred hl with ⟨hdeclares, hreason⟩ | ⟨hundeclared, hinferred⟩
    · exact ⟨fun _ => hreason, fun hnot => absurd hdeclares hnot⟩
    · refine ⟨fun hdeclares => absurd hdeclares hundeclared, fun _ => ?_⟩
      exact exists_segment_of_mem hinferred
  · intro l hl subnet hreason
    rcases declared_or_inferred hl with ⟨_, hdeclared⟩ | ⟨_, hinferred⟩
    · rw [hdeclared] at hreason
      cases hreason
    · obtain ⟨a, b, _, hsegment, _⟩ := exists_segment_of_mem hinferred
      have hne := (mem_distinctPairs hl).2
      exact (hlinked l.target l.source).mpr ⟨hne.symm, Or.inr ⟨b, a, hsegment.symm⟩⟩

/-- Interfaces with masks of different length, and an adjacency that counts in one
direction. The way there is declared; the way back is linked for the wider subnet. -/
example :
    let wide : Network := ⟨⟨.v4, 167772161, by decide⟩, 16, by decide⟩
    let narrow : Network := ⟨⟨.v4, 167773441, by decide⟩, 24, by decide⟩
    let device (id : String) (a : Network) (adjacencies : List Adjacency) : Device :=
      ⟨id, [⟨"eth", [a]⟩], [⟨"lan", ["eth"], none⟩], [], [], adjacencies⟩
    sharedSubnet.links [device "a" wide [⟨"lan", "b", "lan", false⟩], device "b" narrow []] =
      [⟨⟨"a", "lan"⟩, ⟨"b", "lan"⟩, .declared⟩,
        ⟨⟨"b", "lan"⟩, ⟨"a", "lan"⟩, .sharedSubnet wide.masked⟩] := by decide

end Inference

end Perimeter
