import Perimeter.Proofs.Topology.Segments

/-!
Links along routes. A route leads from the zone by which it leaves its device to the
zone of the first interface that has its next hop, provided another device has it. Who
comes first may depend on the order of devices, but not where each address is
configured on one device only; then the same zones are linked in whatever order the
devices are listed.
-/

namespace Perimeter

/-- An item of a list has a property, and none before it does. -/
def IsFirst {α : Type} (p : α → Prop) (x : α) (xs : List α) : Prop :=
  ∃ before after, xs = before ++ x :: after ∧ p x ∧ ∀ y ∈ before, ¬p y

theorem find?_eq_some_iff_isFirst {α : Type} {test : α → Bool} {p : α → Prop}
    (htest : ∀ x, test x = true ↔ p x) {x : α} {xs : List α} :
    xs.find? test = some x ↔ IsFirst p x xs := by
  rw [List.find?_eq_some_iff_append]
  simp only [IsFirst, ← htest, Bool.not_eq_true, Bool.not_eq_true']
  constructor
  · rintro ⟨hx, before, after, hxs, hbefore⟩
    exact ⟨before, after, hxs, hx, hbefore⟩
  · rintro ⟨before, after, hxs, hx, hbefore⟩
    exact ⟨hx, before, after, hxs, hbefore⟩

theorem IsFirst.mem {α : Type} {p : α → Prop} {x : α} {xs : List α} (h : IsFirst p x xs) :
    x ∈ xs ∧ p x := by
  obtain ⟨before, after, rfl, hx, _⟩ := h
  exact ⟨by simp, hx⟩

/-- Where no two lists have items with the property, an item that comes first in one of
them comes first in all together. -/
theorem find?_flatMap_eq_some_iff {α β : Type} {f : α → List β} {test : β → Bool} {xs : List α}
    (happart : ∀ a ∈ xs, ∀ b ∈ xs, ∀ y ∈ f a, ∀ z ∈ f b, test y = true → test z = true → a = b)
    {y : β} : (xs.flatMap f).find? test = some y ↔ ∃ a ∈ xs, (f a).find? test = some y := by
  rw [List.find?_flatMap]
  refine ⟨List.exists_of_findSome?_eq_some, ?_⟩
  rintro ⟨a, ha, hy⟩
  cases hfound : xs.findSome? fun a => (f a).find? test with
  | none => exact absurd (List.findSome?_eq_none_iff.mp hfound a ha) (by simp [hy])
  | some z =>
    obtain ⟨b, hb, hz⟩ := List.exists_of_findSome?_eq_some hfound
    have hsame := happart a ha b hb y (List.mem_of_find?_eq_some hy) z
      (List.mem_of_find?_eq_some hz) (List.find?_some hy) (List.find?_some hz)
    rw [← hz, ← hsame, hy]

/-- The zone by which a route leaves its device: the first that lists its interface or,
where the route names none, that of the first address in a zone whose network holds the
next hop. -/
inductive Device.LeavesBy (d : Device) (r : Route) (via : Address) : ZoneRef → Prop where
  | interface {name : String} {z : Zone} (hinterface : r.interface = some name)
      (hfirst : IsFirst (name ∈ ·.interfaces) z d.zones) : LeavesBy d r via ⟨d.id, z.name⟩
  | subnet {zone : ZoneRef} {a : Network} (hinterface : r.interface = none)
      (hfirst : IsFirst (·.2.contains via = true) (zone, a) d.zonedAddresses) :
      LeavesBy d r via zone

/-- The zone is that of the first address in any zone that is the given one. -/
def FirstOwner (devices : List Device) (a : Address) (zone : ZoneRef) : Prop :=
  ∃ n, IsFirst (·.2.address = a) (zone, n) (devices.flatMap Device.zonedAddresses)

/-- A route of the one zone's device leaves by it for a next hop that another device is
the first to have, in the other zone. -/
structure Forwards (devices : List Device) (source target : ZoneRef) (via : Address) : Prop where
  route : ∃ d ∈ devices, d.id = source.device ∧ ∃ r ∈ d.routes, r.nextHop = some via ∧
    d.LeavesBy r via source
  owner : FirstOwner devices via target
  device_ne : source.device ≠ target.device

/-- No address is configured in zones of two devices. -/
def AddressesApart (devices : List Device) : Prop :=
  ∀ z w a b, HasAddress devices z a → HasAddress devices w b → a.address = b.address →
    z.device = w.device

section

variable {devices devices' : List Device} {source target zone : ZoneRef} {via : Address}

theorem Device.egress?_eq_some_iff {d : Device} {r : Route} :
    d.egress? r via = some zone ↔ d.LeavesBy r via zone := by
  unfold egress?
  constructor
  · intro h
    split at h
    · rename_i name hinterface
      obtain ⟨z, hfirst, rfl⟩ := Option.map_eq_some_iff.mp h
      exact .interface hinterface ((find?_eq_some_iff_isFirst (by simp)).mp hfirst)
    · rename_i hinterface
      obtain ⟨⟨zone, a⟩, hfirst, rfl⟩ := Option.map_eq_some_iff.mp h
      exact .subnet hinterface ((find?_eq_some_iff_isFirst fun _ => Iff.rfl).mp hfirst)
  · intro h
    cases h with
    | @interface name z hinterface hfirst =>
      rw [hinterface]
      exact Option.map_eq_some_iff.mpr ⟨z, (find?_eq_some_iff_isFirst (by simp)).mpr hfirst, rfl⟩
    | @subnet _ a hinterface hfirst =>
      rw [hinterface]
      exact Option.map_eq_some_iff.mpr
        ⟨(zone, a), (find?_eq_some_iff_isFirst fun _ => Iff.rfl).mpr hfirst, rfl⟩

theorem ownerOf?_eq_some_iff : ownerOf? devices via = some zone ↔ FirstOwner devices via zone := by
  unfold ownerOf? FirstOwner
  rw [Option.map_eq_some_iff]
  constructor
  · rintro ⟨⟨zone, a⟩, hfirst, rfl⟩
    exact ⟨a, (find?_eq_some_iff_isFirst (by simp)).mp hfirst⟩
  · rintro ⟨a, hfirst⟩
    exact ⟨(zone, a), (find?_eq_some_iff_isFirst (by simp)).mpr hfirst, rfl⟩

theorem FirstOwner.hasAddress (h : FirstOwner devices via zone) :
    ∃ a, HasAddress devices zone a ∧ a.address = via := by
  obtain ⟨a, hfirst⟩ := h
  exact ⟨a, mem_zonedAddresses_iff.mp hfirst.mem.1, hfirst.mem.2⟩

/-- Links along routes are those that lead on to a next hop. -/
theorem mem_nextHopLinks_iff {l : Link} :
    l ∈ nextHopLinks devices ↔
      ∃ via, Forwards devices l.source l.target via ∧ l.reason = .nextHop via := by
  unfold nextHopLinks
  simp only [List.mem_flatMap, List.mem_filterMap, Device.routeLink?_eq_some_iff]
  constructor
  · rintro ⟨d, hd, r, hr, via, hvia, hegress, howner, hother, hreason⟩
    have hsource := Device.device_of_egress? hegress
    refine ⟨via, ⟨⟨d, hd, hsource.symm, r, hr, hvia, ?_⟩, ?_, ?_⟩, hreason⟩
    · exact Device.egress?_eq_some_iff.mp hegress
    · exact ownerOf?_eq_some_iff.mp howner
    · rw [hsource]
      exact hother.symm
  · rintro ⟨via, ⟨⟨d, hd, hid, r, hr, hvia, hleaves⟩, howner, hne⟩, hreason⟩
    refine ⟨d, hd, r, hr, via, hvia, ?_, ownerOf?_eq_some_iff.mpr howner, ?_, hreason⟩
    · exact Device.egress?_eq_some_iff.mpr hleaves
    · rw [hid]
      exact hne.symm

theorem mem_ends_nextHopLinks_iff :
    (source, target) ∈ (nextHopLinks devices).map Link.ends ↔
      ∃ via, Forwards devices source target via := by
  constructor
  · intro h
    obtain ⟨l, hl, hends⟩ := List.mem_map.mp h
    obtain ⟨rfl, rfl⟩ := Prod.mk.inj hends
    obtain ⟨via, hforwards, _⟩ := mem_nextHopLinks_iff.mp hl
    exact ⟨via, hforwards⟩
  · rintro ⟨via, hforwards⟩
    exact List.mem_map.mpr ⟨⟨source, target, .nextHop via⟩,
      mem_nextHopLinks_iff.mpr ⟨via, hforwards, rfl⟩, rfl⟩

theorem addressesApart_iff :
    AddressesApart devices ↔ ∀ p ∈ devices.flatMap Device.zonedAddresses,
      ∀ q ∈ devices.flatMap Device.zonedAddresses, p.2.address = q.2.address →
        p.1.device = q.1.device := by
  unfold AddressesApart
  simp only [← mem_zonedAddresses_iff, Prod.forall]
  exact ⟨fun h z a hz w b hw => h z w a b hz hw, fun h z w a b hz hw => h z a hz w b hw⟩

/-- Where addresses are apart, an address has its owner on the one device that has it. -/
theorem ownerOf?_eq_some_iff_exists (hdistinct : (devices.map (·.id)).Nodup)
    (happart : AddressesApart devices) :
    ownerOf? devices via = some zone ↔
      ∃ d ∈ devices, ∃ a, d.zonedAddresses.find? (·.2.address == via) = some (zone, a) := by
  have hone : ∀ d ∈ devices, ∀ d' ∈ devices, ∀ p ∈ d.zonedAddresses, ∀ q ∈ d'.zonedAddresses,
      (p.2.address == via) = true → (q.2.address == via) = true → d = d' := by
    intro d hd d' hd' p hp q hq hpvia hqvia
    rw [beq_iff_eq] at hpvia hqvia
    have hsame := addressesApart_iff.mp happart p (List.mem_flatMap.mpr ⟨d, hd, hp⟩) q
      (List.mem_flatMap.mpr ⟨d', hd', hq⟩) (hpvia.trans hqvia.symm)
    rw [← (Device.zone_of_mem_zonedAddresses hp).1, ← (Device.zone_of_mem_zonedAddresses hq).1]
      at hsame
    exact List.inj_on_of_nodup_map hdistinct hd hd' hsame
  unfold ownerOf?
  rw [Option.map_eq_some_iff]
  simp only [find?_flatMap_eq_some_iff hone]
  constructor
  · rintro ⟨⟨zone, a⟩, ⟨d, hd, hfirst⟩, rfl⟩
    exact ⟨d, hd, a, hfirst⟩
  · rintro ⟨d, hd, a, hfirst⟩
    exact ⟨(zone, a), ⟨d, hd, hfirst⟩, rfl⟩

/-- The order of devices is of no account to who owns an address. -/
theorem ownerOf?_eq_of_perm (hdistinct : (devices.map (·.id)).Nodup)
    (happart : AddressesApart devices) (hperm : devices'.Perm devices) :
    ownerOf? devices' = ownerOf? devices := by
  have hdistinct' : (devices'.map (·.id)).Nodup := (hperm.map _).nodup_iff.mpr hdistinct
  have happart' : AddressesApart devices' := by
    rw [addressesApart_iff] at happart ⊢
    have hmem : ∀ p, p ∈ devices'.flatMap Device.zonedAddresses ↔
        p ∈ devices.flatMap Device.zonedAddresses := fun p => (hperm.flatMap_right _).mem_iff
    simpa only [hmem] using happart
  funext via
  apply Option.ext
  intro zone
  rw [ownerOf?_eq_some_iff_exists hdistinct happart,
    ownerOf?_eq_some_iff_exists hdistinct' happart']
  exact exists_congr fun d => and_congr_left fun _ => hperm.mem_iff

end

namespace Inference

variable {devices devices' : List Device}

/-- The same zones are linked along routes in every order of devices. -/
theorem mem_ends_nextHop_links_of_perm (hdistinct : (devices.map (·.id)).Nodup)
    (happart : AddressesApart devices) (hperm : devices'.Perm devices) {source target : ZoneRef} :
    (source, target) ∈ (nextHop.links devices').map Link.ends ↔
      (source, target) ∈ (nextHop.links devices).map Link.ends := by
  have hlinks : (nextHopLinks devices').Perm (nextHopLinks devices) := by
    unfold nextHopLinks Device.routeLink?
    rw [ownerOf?_eq_of_perm hdistinct happart hperm]
    exact hperm.flatMap_right _
  have hdeclared := hperm.flatMap_right Device.declaredLinks
  rw [mem_ends_links_iff, mem_ends_links_iff, (hdeclared.map Link.ends).mem_iff]
  exact and_congr_right fun _ => or_congr_right (hlinks.map Link.ends).mem_iff

/-- Under the strategy for next hops, a link that has one for its reason leads from the
zone by which a route with this next hop leaves to a zone of another device that has the
address, and no adjacency links these zones. Zones are linked when an adjacency says so or
a route forwards from the one to the other, and not otherwise. Where no address is
configured on two devices, the same zones are linked in every order of the devices. -/
theorem nextHop_links_exact {devices : List Device} (hdistinct : (devices.map (·.id)).Nodup) :
    (∀ l ∈ nextHop.links devices, ∀ via, l.reason = .nextHop via →
      Forwards devices l.source l.target via ∧
        (∃ a, HasAddress devices l.target a ∧ a.address = via) ∧
        ¬DeclaresLink devices l.source l.target) ∧
    (∀ z w, (z, w) ∈ (nextHop.links devices).map Link.ends ↔
      z ≠ w ∧ (DeclaresLink devices z w ∨ ∃ via, Forwards devices z w via)) ∧
    (AddressesApart devices → ∀ devices', devices'.Perm devices → ∀ z w,
      (z, w) ∈ (nextHop.links devices').map Link.ends ↔
        (z, w) ∈ (nextHop.links devices).map Link.ends) := by
  refine ⟨?_, ?_, ?_⟩
  · intro l hl via hreason
    rcases declared_or_inferred hl with ⟨_, hdeclared⟩ | ⟨hundeclared, hinferred⟩
    · rw [hdeclared] at hreason
      cases hreason
    · obtain ⟨via', hforwards, hreason'⟩ := mem_nextHopLinks_iff.mp hinferred
      cases hreason.symm.trans hreason'
      exact ⟨hforwards, hforwards.owner.hasAddress, hundeclared⟩
  · intro z w
    rw [mem_ends_links_iff, mem_ends_declaredLinks_iff]
    exact and_congr_right fun _ => or_congr_right mem_ends_nextHopLinks_iff
  · intro happart devices' hperm z w
    exact mem_ends_nextHop_links_of_perm hdistinct happart hperm

/-- Three devices in a row. The first and the last send everything to the one between
them, which has a route of its own to the last. The last also declares its link. -/
def relayed : List Device :=
  let everywhere : Network := Catalog.everything .v4
  let outer : Address := ⟨.v4, 169082882, by decide⟩
  let inner : Address := ⟨.v4, 169083137, by decide⟩
  let host : Address := ⟨.v4, 169083138, by decide⟩
  [⟨"edge", [⟨"up", [⟨⟨.v4, 169082881, by decide⟩, 29, by decide⟩]⟩], [⟨"wan", ["up"], none⟩], [],
      [⟨everywhere, some outer, none⟩], []⟩,
    ⟨"hub", [⟨"left", [⟨outer, 29, by decide⟩]⟩, ⟨"right", [⟨inner, 29, by decide⟩]⟩],
      [⟨"inside", ["right"], none⟩, ⟨"outside", ["left"], none⟩], [],
      [⟨everywhere, some host, some "right"⟩], []⟩,
    ⟨"leaf", [⟨"up", [⟨host, 29, by decide⟩]⟩], [⟨"lan", ["up"], none⟩], [],
      [⟨everywhere, some inner, some "up"⟩], [⟨"lan", "hub", "inside", false⟩]⟩]

theorem relayed_links_exact :
    (relayed.map (·.id)).Nodup ∧ AddressesApart relayed ∧
      Forwards relayed ⟨"edge", "wan"⟩ ⟨"hub", "outside"⟩ ⟨.v4, 169082882, by decide⟩ ∧
      ∀ devices, devices.Perm relayed → ∀ z w, (z, w) ∈ (nextHop.links devices).map Link.ends ↔
        (z, w) ∈ [((⟨"leaf", "lan"⟩, ⟨"hub", "inside"⟩) : ZoneRef × ZoneRef),
          (⟨"edge", "wan"⟩, ⟨"hub", "outside"⟩), (⟨"hub", "inside"⟩, ⟨"leaf", "lan"⟩)] := by
  have hdistinct : (relayed.map (·.id)).Nodup := by decide
  have happart : AddressesApart relayed := addressesApart_iff.mpr (by decide)
  have hlink : ⟨⟨"edge", "wan"⟩, ⟨"hub", "outside"⟩, .nextHop ⟨.v4, 169082882, by decide⟩⟩ ∈
      nextHop.links relayed := by decide
  obtain ⟨hjustified, _, hperm⟩ := nextHop_links_exact hdistinct
  refine ⟨hdistinct, happart, (hjustified _ hlink _ rfl).1, ?_⟩
  intro devices hdevices z w
  rw [hperm happart devices hdevices]
  have hends : (nextHop.links relayed).map Link.ends =
      [(⟨"leaf", "lan"⟩, ⟨"hub", "inside"⟩), (⟨"edge", "wan"⟩, ⟨"hub", "outside"⟩),
        (⟨"hub", "inside"⟩, ⟨"leaf", "lan"⟩)] := by decide
  rw [hends]

end Inference

end Perimeter
