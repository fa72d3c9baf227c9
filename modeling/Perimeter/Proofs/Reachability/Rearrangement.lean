import Perimeter.Proofs.Reachability.Counterpart
import Perimeter.Proofs.Snapshot.Reordering
import Perimeter.Proofs.Topology.Linked

/-!
Engines of snapshots whose devices and zones are listed in another order. The nodes are
numbered anew, so searches take up edges in another order, and of several subnets that
make for one link another one may come first. But the nodes stand for the same zones
with the same addresses, the same pairs of zones are linked and the same rule sets stand
between them, and no more is needed for answers that are alike. Where links are inferred
from routes the order of zones does matter, since a route leaves by the first of them
that has its interface.
-/

namespace Perimeter

section Zip

variable {α β : Type} {xs : List α} {ys : List β}

theorem exists_mem_zip_left (hlength : xs.length = ys.length) {x : α} (hx : x ∈ xs) :
    ∃ y, (x, y) ∈ xs.zip ys := by
  rw [← List.map_fst_zip hlength.le] at hx
  obtain ⟨⟨_, y⟩, hpair, rfl⟩ := List.mem_map.mp hx
  exact ⟨y, hpair⟩

theorem exists_mem_zip_right (hlength : xs.length = ys.length) {y : β} (hy : y ∈ ys) :
    ∃ x, (x, y) ∈ xs.zip ys := by
  rw [← List.map_snd_zip hlength.ge] at hy
  obtain ⟨⟨x, _⟩, hpair, rfl⟩ := List.mem_map.mp hy
  exact ⟨x, hpair⟩

end Zip

section Slots

variable {c : Catalog} {device : String} {z : Zone} {zones : List Zone}
  {slot : Option (String × NetworkSet)} {slots : List (Option (String × NetworkSet))}

namespace Zone.Fills

/-- The set of a zone's address book is kept under the name of the zone. -/
theorem name_eq (h : z.Fills c device slot) {entry : String × NetworkSet}
    (hentry : slot = some entry) : entry.1 = z.name := by
  unfold Zone.Fills at h
  cases hbook : z.addressBook with
  | none =>
    rw [hbook] at h
    cases h.symm.trans hentry
  | some book =>
    rw [hbook] at h
    obtain ⟨set, _, hset⟩ := h
    cases hset.symm.trans hentry
    rfl

theorem provides (h : z.Fills c device slot) :
    c.networks.Provides .empty z.addressBook (.device device)
      ((slot.map Prod.snd).getD .empty) := by
  unfold Zone.Fills at h
  cases hbook : z.addressBook with
  | none =>
    rw [hbook] at h
    subst h
    rfl
  | some book =>
    rw [hbook] at h
    obtain ⟨set, hset, rfl⟩ := h
    exact hset

end Zone.Fills

theorem name_mem_of_fills (h : List.Forall₂ (fun z slot => Zone.Fills z c device slot) zones slots)
    {entry : String × NetworkSet} (hentry : entry ∈ slots.filterMap id) :
    entry.1 ∈ zones.map Zone.name := by
  obtain ⟨slot, hslot, heq⟩ := List.mem_filterMap.mp hentry
  obtain ⟨z, hz, hfills⟩ := exists_of_mem_right h hslot
  rw [hfills.name_eq heq]
  exact List.mem_map_of_mem hz

/-- Among zones of distinct names, what each has in its slot is found under its name. -/
theorem lookup_of_fills (h : List.Forall₂ (fun z slot => Zone.Fills z c device slot) zones slots)
    (hnames : (zones.map Zone.name).Nodup) (hpair : (z, slot) ∈ zones.zip slots) :
    (slots.filterMap id).lookup z.name = slot.map Prod.snd := by
  induction h with
  | nil => cases hpair
  | @cons first head rest slots hfills hrest ih =>
    obtain ⟨hoff, hnames⟩ := List.nodup_cons.mp hnames
    rcases List.mem_cons.mp hpair with hfirst | hlater
    · obtain ⟨rfl, rfl⟩ := Prod.mk.inj hfirst
      cases slot with
      | none =>
        refine List.lookup_eq_none_iff.mpr fun entry hentry => ?_
        have hmem := name_mem_of_fills hrest hentry
        rw [bne_iff_ne]
        exact fun heq => hoff (heq ▸ hmem)
      | some entry =>
        obtain ⟨name, set⟩ := entry
        obtain rfl : name = z.name := hfills.name_eq rfl
        exact List.lookup_cons_self
    · have hne : z.name ≠ first.name := fun heq =>
        hoff (heq ▸ List.mem_map_of_mem (List.of_mem_zip hlater).1)
      rw [← ih hnames hlater]
      cases head with
      | none => rfl
      | some entry =>
        obtain ⟨name, set⟩ := entry
        obtain rfl : name = first.name := hfills.name_eq rfl
        simp [List.lookup_cons, beq_eq_false_iff_ne.mpr hne]

end Slots

/-- The nodes stand for the zones of the devices, each with the addresses that are
resolved for it. -/
theorem ResolvedSnapshot.mem_nodes_iff_exists {s : ResolvedSnapshot} {n : Node} :
    n ∈ s.nodes ↔ ∃ d r, (d, r) ∈ s.snapshot.devices.zip s.devices ∧
      ∃ z ∈ d.zones, n = ⟨⟨d.id, z.name⟩, r.zoneNetworks d z⟩ := by
  simp only [nodes, ResolvedDevice.nodes, List.mem_flatMap, List.mem_map, Prod.exists]
  exact exists_congr fun d => exists_congr fun r => and_congr_right fun _ =>
    exists_congr fun z => and_congr_right fun _ => eq_comm

namespace Device.Rearranged

variable {d d' : Device}

/-- The addresses that are resolved for a zone do not depend on where it is listed. -/
theorem zoneNetworks_eq (h : d.Rearranged d') {c c' : Catalog} (hc : c.Reordered c')
    {r r' : ResolvedDevice} (hr : r.Renders c d) (hr' : r'.Renders c' d')
    (hnames : (d.zones.map Zone.name).Nodup) {z : Zone} (hz : z ∈ d.zones) :
    r.zoneNetworks d z = r'.zoneNetworks d' z := by
  obtain ⟨slots, hslots, hbooks⟩ := hr.zoneBooks
  obtain ⟨slots', hslots', hbooks'⟩ := hr'.zoneBooks
  obtain ⟨slot, hpair⟩ := exists_mem_zip_left hslots.length_eq hz
  obtain ⟨slot', hpair'⟩ := exists_mem_zip_left hslots'.length_eq (h.zones.mem_iff.mp hz)
  have hprovides := (List.forall₂_zip hslots hpair).provides
  have hprovides' := (List.forall₂_zip hslots' hpair').provides
  rw [← h.id] at hprovides'
  have hnames' := (h.zones.map Zone.name).nodup_iff.mp hnames
  unfold ResolvedDevice.zoneNetworks
  rw [hbooks, hbooks', lookup_of_fills hslots hnames hpair, lookup_of_fills hslots' hnames' hpair',
    h.zoneAddresses_eq, hc.keeps.networks.provided_eq hprovides hprovides']

end Device.Rearranged

namespace Snapshot.Rearranged

variable {s s' : Snapshot} {builtins : Bool} {resolved resolved' : ResolvedSnapshot}

theorem mem_zonedSubnets (h : s.Rearranged s') {p : ZoneRef × Network}
    (hp : p ∈ zonedSubnets s.devices) : p ∈ zonedSubnets s'.devices := by
  obtain ⟨hzoned, hsubnet⟩ := List.mem_filter.mp hp
  obtain ⟨d, hd, hp⟩ := List.mem_flatMap.mp hzoned
  obtain ⟨d', hd', hsame⟩ := h.exists_device hd
  exact List.mem_filter.mpr
    ⟨List.mem_flatMap.mpr ⟨d', hd', hsame.zonedAddresses_perm.mem_iff.mp hp⟩, hsubnet⟩

/-- The strategies that do not look at routes link the same zones. -/
theorem mem_ends_links (h : s.Rearranged s') {inference : Inference}
    (hinference : inference = .explicitOnly ∨ inference = .sharedSubnet) {source target : ZoneRef}
    (hlinked : (source, target) ∈ (inference.links s.devices).map Link.ends) :
    (source, target) ∈ (inference.links s'.devices).map Link.ends := by
  rw [Inference.mem_ends_links_iff] at hlinked ⊢
  obtain ⟨hne, hdeclared | hinferred⟩ := hlinked
  · obtain ⟨l, hl, hends⟩ := List.mem_map.mp hdeclared
    obtain ⟨d, hd, hl⟩ := List.mem_flatMap.mp hl
    obtain ⟨d', hd', hsame⟩ := h.exists_device hd
    have hl' := List.mem_flatMap.mpr ⟨d', hd', hsame.declaredLinks_perm.mem_iff.mp hl⟩
    exact ⟨hne, Or.inl (List.mem_map.mpr ⟨l, hl', hends⟩)⟩
  · refine ⟨hne, Or.inr ?_⟩
    rcases hinference with rfl | rfl
    · cases hinferred
    · obtain ⟨p, hp, q, hq, hshares, hends⟩ := mem_ends_sharedSubnetLinks_iff.mp hinferred
      exact mem_ends_sharedSubnetLinks_iff.mpr
        ⟨p, h.mem_zonedSubnets hp, q, h.mem_zonedSubnets hq, hshares, hends⟩

/-- Every device has its counterpart, which is made of the same sets. -/
theorem exists_counterpart (h : s.Rearranged s') (hr : s.resolve builtins = .ok resolved)
    (hr' : s'.resolve builtins = .ok resolved') :
    ∃ c c', c.Reordered c' ∧ ∀ d r, (d, r) ∈ resolved.snapshot.devices.zip resolved.devices →
      r.Renders c d ∧ ∃ d' r', (d', r') ∈ resolved'.snapshot.devices.zip resolved'.devices ∧
        d.Rearranged d' ∧ r'.Renders c' d' := by
  obtain ⟨hsame, c, hcatalog, hdevices, _⟩ := renders_of_resolve hr
  obtain ⟨hsame', c', hcatalog', hdevices', _⟩ := renders_of_resolve hr'
  refine ⟨c, c',
    Catalog.reordered_of_ofBooks h.networkBooks h.serviceBooks hcatalog hcatalog', ?_⟩
  rw [hsame, hsame']
  intro d r hpair
  obtain ⟨d', hd', hd⟩ := h.exists_device (List.of_mem_zip hpair).1
  obtain ⟨r', hpair'⟩ := exists_mem_zip_left hdevices'.length_eq hd'
  exact ⟨List.forall₂_zip hdevices hpair, d', r', hpair', hd, List.forall₂_zip hdevices' hpair'⟩

theorem mem_nodes (h : s.Rearranged s') (hr : s.resolve builtins = .ok resolved)
    (hr' : s'.resolve builtins = .ok resolved') {n : Node} (hn : n ∈ resolved.nodes) :
    n ∈ resolved'.nodes := by
  obtain ⟨c, c', hc, hcounterpart⟩ := h.exists_counterpart hr hr'
  obtain ⟨d, r, hpair, z, hz, rfl⟩ := ResolvedSnapshot.mem_nodes_iff_exists.mp hn
  obtain ⟨hrenders, d', r', hpair', hd, hrenders'⟩ := hcounterpart d r hpair
  have hvalid := (booksValid_of_resolve hr).1
  have hmem : d ∈ s.devices := (underlies_of_resolve hr).same ▸ (List.of_mem_zip hpair).1
  rw [hd.id, hd.zoneNetworks_eq hc hrenders hrenders' (hvalid.devices d hmem).zones hz]
  exact ResolvedSnapshot.mem_nodes_iff_exists.mpr
    ⟨d', r', hpair', z, hd.zones.mem_iff.mp hz, rfl⟩

/-- The nodes are the same, up to their order. -/
theorem nodes_perm (h : s.Rearranged s') (hr : s.resolve builtins = .ok resolved)
    (hr' : s'.resolve builtins = .ok resolved') : resolved.nodes.Perm resolved'.nodes := by
  have hnodup : ∀ {s : Snapshot} {resolved : ResolvedSnapshot},
      s.resolve builtins = .ok resolved → resolved.nodes.Nodup := by
    intro s resolved hr
    have hfault : resolved.snapshot.fault? = none :=
      (underlies_of_resolve hr).same ▸ (resolve_eq_ok_iff.mp hr).1
    exact .of_map _ (ResolvedSnapshot.nodup_zones hfault)
  rw [List.perm_ext_iff_of_nodup (hnodup hr) (hnodup hr')]
  exact fun n => ⟨h.mem_nodes hr hr', h.symm.mem_nodes hr' hr⟩

/-- The same zones are connected, by the same rule sets or by links. -/
theorem exists_connects (h : s.Rearranged s') (hr : s.resolve builtins = .ok resolved)
    (hr' : s'.resolve builtins = .ok resolved') {inference : Inference}
    (hinference : inference = .explicitOnly ∨ inference = .sharedSubnet) {source target : ZoneRef}
    {kind : EdgeKind} (hconnects : resolved.Connects inference source target kind) :
    ∃ kind', kind.Alike kind' ∧ resolved'.Connects inference source target kind' := by
  cases hconnects with
  | @ruleSet r rs hmem hrs =>
    obtain ⟨c, c', hc, hcounterpart⟩ := h.exists_counterpart hr hr'
    obtain ⟨_, _, _, hdevices, _⟩ := renders_of_resolve hr
    rw [← (underlies_of_resolve hr).same] at hdevices
    obtain ⟨d, hpair⟩ := exists_mem_zip_right hdevices.length_eq hmem
    obtain ⟨hrenders, d', r', hpair', hd, hrenders'⟩ := hcounterpart d r hpair
    obtain ⟨configured, hconfigured, hruleSet⟩ := exists_of_mem_right hrenders.ruleSets hrs
    obtain ⟨rs', hrs', hruleSet'⟩ :=
      exists_of_mem_left hrenders'.ruleSets (hd.ruleSets.mem_iff.mp hconfigured)
    rw [← hd.id] at hruleSet'
    obtain rfl := hc.keeps.ruleSet_eq hruleSet hruleSet'
    refine ⟨_, .filtered rs, ?_⟩
    rw [hrenders.id, hd.id, ← hrenders'.id]
    exact .ruleSet (List.of_mem_zip hpair').2 hrs'
  | @link l hl =>
    rw [(underlies_of_resolve hr).same] at hl
    have hlinked := h.mem_ends_links hinference (List.mem_map_of_mem hl)
    obtain ⟨l', hl', hends⟩ := List.mem_map.mp hlinked
    obtain ⟨hsource, htarget⟩ := Prod.mk.inj hends
    rw [← (underlies_of_resolve hr').same] at hl'
    refine ⟨_, .transit l.reason l'.reason, ?_⟩
    rw [← hsource, ← htarget]
    exact .link hl'

theorem within (h : s.Rearranged s') (hr : s.resolve builtins = .ok resolved)
    (hr' : s'.resolve builtins = .ok resolved') {inference : Inference}
    (hinference : inference = .explicitOnly ∨ inference = .sharedSubnet) {g g' : Graph}
    (hbuild : Graph.build resolved inference = .ok g)
    (hbuild' : Graph.build resolved' inference = .ok g') : g.Within g' := by
  have hfault : resolved'.snapshot.fault? = none :=
    (underlies_of_resolve hr').same ▸ (resolve_eq_ok_iff.mp hr').1
  refine ⟨?_, Graph.zone_injective hbuild' hfault, ?_⟩
  · rw [Graph.nodes_of_build hbuild, Graph.nodes_of_build hbuild']
    exact h.nodes_perm hr hr'
  · intro source target kind hjoins
    obtain ⟨kind', halike, hconnects⟩ :=
      h.exists_connects hr hr' hinference ((Graph.joins_iff_connects hbuild).mp hjoins)
    exact ⟨kind', halike, (Graph.joins_iff_connects hbuild').mpr hconnects⟩

end Snapshot.Rearranged

namespace Engine

/-- The order in which a snapshot lists its devices and their zones does not change who
can reach whom, as long as links are not inferred from routes. From a snapshot that is
loaded, another one with these in another order, and with its books, its rule sets and
its adjacencies in another order too, is loaded under the same configuration. The same
zones are linked, and every question is answered alike: it fails for one reason, or it
has the same ends, is allowed in both or in neither, in one way, and permits the same if
it is about one port. -/
theorem load_rearranged {s s' : Snapshot} {config : EngineConfig} {e : Engine}
    (h : s.Rearranged s')
    (htopology : config.topology = .explicitOnly ∨ config.topology = .sharedSubnet)
    (hload : load s config = .ok e) :
    ∃ e', load s' config = .ok e' ∧
      (∀ source target, (source, target) ∈ (config.topology.links s.devices).map Link.ends ↔
        (source, target) ∈ (config.topology.links s'.devices).map Link.ends) ∧
      ∀ q, AnsweredAlike (e.query q) (e'.query q) := by
  obtain ⟨e', hload'⟩ := h.exists_load hload
  obtain ⟨hresolve, hbuild⟩ := load_eq_ok_iff.mp hload
  obtain ⟨hresolve', hbuild'⟩ := load_eq_ok_iff.mp hload'
  refine ⟨e', hload', ?_, ?_⟩
  · intro source target
    exact ⟨h.mem_ends_links htopology, h.symm.mem_ends_links htopology⟩
  · intro q
    exact Graph.query_alike (h.within hresolve hresolve' htopology hbuild hbuild')
      (h.symm.within hresolve' hresolve htopology hbuild' hbuild) q e.digest e'.digest

private def duoDevice (id : String) (value : Nat) (hvalue : value ≤ Family.v4.top)
    (zones : List Zone) (ruleSets : List RuleSet) : Device where
  id := id
  interfaces := [⟨"eth0", [⟨⟨.v4, value, hvalue⟩, 22, (by decide : 22 ≤ 32)⟩]⟩]
  zones := zones
  ruleSets := ruleSets
  routes := []
  adjacencies := []

private def duoRuleSet : RuleSet where
  name := none
  fromZone := "lan"
  toZone := "segment"
  defaultAction := .permit
  rules := []

private def duoLeft (zones : List Zone) : Device :=
  duoDevice "left" 2887188481 (by decide) zones [duoRuleSet]

private def duoRight (zones : List Zone) : Device :=
  duoDevice "right" 2887188482 (by decide) zones []

private def duoSegment : Zone := ⟨"segment", ["eth0"], none⟩

private def duoLan : Zone := ⟨"lan", [], none⟩

/-- Two devices with interfaces in one subnet. The first lets its other zone send there. -/
def duo : Snapshot where
  toolRunId := none
  devices := [duoLeft [duoLan, duoSegment], duoRight [duoSegment, duoLan]]
  networkBooks := []
  serviceBooks := []

/-- The same devices the other way round, and the zones of each of them too. -/
def duoTurned : Snapshot where
  toolRunId := none
  devices := [duoRight [duoLan, duoSegment], duoLeft [duoSegment, duoLan]]
  networkBooks := []
  serviceBooks := []

private theorem duo_rearranged : duo.Rearranged duoTurned := by
  refine ⟨rfl, ⟨_, .swap .., ?_⟩, ⟨_, .refl _, .nil⟩, ⟨_, .refl _, .nil⟩⟩
  exact .cons ⟨rfl, rfl, rfl, .swap .., .refl _, .refl _⟩
    (.cons ⟨rfl, rfl, rfl, .swap .., .refl _, .refl _⟩ .nil)

private def duoConfig : EngineConfig := ⟨.sharedSubnet, true, false⟩

private theorem duo_loads : ∃ e, load duo duoConfig = .ok e := by
  have hresolves : ∃ resolved, duo.resolve false = .ok resolved :=
    Snapshot.exists_resolve (c := ⟨.empty, .empty⟩) (by decide) rfl rfl
  obtain ⟨resolved, hresolved⟩ := hresolves
  obtain ⟨hvalid, hbooks⟩ := Snapshot.booksValid_of_resolve hresolved
  have hgraph : duo.GraphValid := by
    refine ⟨by decide, ?_⟩
    unfold Snapshot.Declares
    decide
  exact Snapshot.WellFormed.exists_load ⟨hvalid, hbooks, hgraph⟩

theorem duo_load_rearranged :
    duo.Rearranged duoTurned ∧ ∃ e, load duo duoConfig = .ok e ∧
      ∃ e', load duoTurned duoConfig = .ok e' ∧
        (∀ source target,
          (source, target) ∈ (duoConfig.topology.links duo.devices).map Link.ends ↔
            (source, target) ∈ (duoConfig.topology.links duoTurned.devices).map Link.ends) ∧
        ∀ q, AnsweredAlike (e.query q) (e'.query q) := by
  obtain ⟨e, hload⟩ := duo_loads
  exact ⟨duo_rearranged, e, hload, load_rearranged duo_rearranged (Or.inr rfl) hload⟩

end Engine

end Perimeter
