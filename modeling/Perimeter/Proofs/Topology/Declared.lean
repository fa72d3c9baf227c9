import Perimeter.Proofs.Snapshot.Resolution
import Perimeter.Proofs.Topology.Distinct

/-!
Which graphs can be built. Every zone that a rule set or a link names must be
declared. The links that a strategy infers only ever join declared zones, so it
comes down to the adjacencies of the devices, whatever the strategy.
-/

namespace Perimeter

/-- A device of the snapshot declares the zone. -/
def Snapshot.Declares (s : Snapshot) (zone : ZoneRef) : Prop :=
  ∃ d ∈ s.devices, d.id = zone.device ∧ zone.zone ∈ d.zones.map Zone.name

namespace Adjacency

/-- The end of an adjacency on the device that declares it. -/
def here (a : Adjacency) (device : String) : ZoneRef := ⟨device, a.zone⟩

def peer (a : Adjacency) : ZoneRef := ⟨a.peerDevice, a.peerZone⟩

/-- An adjacency makes for a link to its peer, and for one back if it counts in
both directions. -/
theorem mem_links_iff {a : Adjacency} {device : String} {l : Link} :
    l ∈ a.links device ↔ l = ⟨a.here device, a.peer, .declared⟩ ∨
      (a.bidirectional = true ∧ l = ⟨a.peer, a.here device, .declared⟩) := by
  have hlinks : a.links device =
      (if a.bidirectional = true then [⟨a.peer, a.here device, .declared⟩] else []) ++
        [⟨a.here device, a.peer, .declared⟩] := rfl
  rw [hlinks, List.mem_append, List.mem_singleton, or_comm]
  split
  · rename_i hback
    simp [hback]
  · rename_i hforth
    simp [hforth]

theorem ends_of_mem_links {a : Adjacency} {device : String} {l : Link} (h : l ∈ a.links device) :
    (l.source = a.here device ∧ l.target = a.peer) ∨
      (l.source = a.peer ∧ l.target = a.here device) := by
  rcases mem_links_iff.mp h with rfl | ⟨_, rfl⟩
  · exact Or.inl ⟨rfl, rfl⟩
  · exact Or.inr ⟨rfl, rfl⟩

end Adjacency

/-- The zones between which a link runs. -/
def Link.ends (l : Link) : ZoneRef × ZoneRef := (l.source, l.target)

/-- A link is kept if it joins two zones that were not linked before, and is the
first to do so. -/
theorem mem_distinctPairs_iff {seen : List (ZoneRef × ZoneRef)} {ls : List Link} {l : Link} :
    l ∈ distinctPairs seen ls ↔
      l.source ≠ l.target ∧ l.ends ∉ seen ∧ ls.find? (·.ends == l.ends) = some l := by
  induction ls generalizing seen with
  | nil => simp [distinctPairs]
  | cons first rest ih =>
    have hstep : distinctPairs seen (first :: rest) =
        if first.source = first.target ∨ first.ends ∈ seen then distinctPairs seen rest
        else first :: distinctPairs (first.ends :: seen) rest := rfl
    rw [hstep]
    by_cases hsame : first.ends = l.ends
    · obtain ⟨hsource, htarget⟩ := Prod.mk.inj hsame
      rw [List.find?_cons_of_pos (by simpa using hsame), hsource, htarget, hsame]
      split
      · rename_i hdropped
        have hnot : l.source ≠ l.target → l.ends ∉ seen → False :=
          fun hne hnew => hdropped.elim hne hnew
        rw [ih]
        exact iff_of_false (fun h => hnot h.1 h.2.1) fun h => hnot h.1 h.2.1
      · rename_i hkept
        obtain ⟨hne, hnew⟩ := not_or.mp hkept
        rw [List.mem_cons, ih]
        constructor
        · rintro (rfl | ⟨_, hoff, _⟩)
          · exact ⟨hne, hnew, rfl⟩
          · exact absurd List.mem_cons_self hoff
        · rintro ⟨_, _, hfirst⟩
          exact Or.inl (Option.some.inj hfirst).symm
    · have hother : l ≠ first := by
        rintro rfl
        exact hsame rfl
      rw [List.find?_cons_of_neg (by simpa using hsame)]
      split
      · exact ih
      · rw [List.mem_cons, or_iff_right hother, ih, List.mem_cons,
          or_iff_right (Ne.symm hsame)]

theorem mem_distinctPairs {seen : List (ZoneRef × ZoneRef)} {ls : List Link} {l : Link}
    (h : l ∈ distinctPairs seen ls) : l ∈ ls ∧ l.source ≠ l.target := by
  obtain ⟨hne, _, hfind⟩ := mem_distinctPairs_iff.mp h
  exact ⟨List.mem_of_find?_eq_some hfind, hne⟩

/-- Every pair of distinct zones that is linked stays linked. -/
theorem exists_mem_distinctPairs {seen : List (ZoneRef × ZoneRef)} {ls : List Link} {l : Link}
    (hl : l ∈ ls) (hne : l.source ≠ l.target) (hnew : l.ends ∉ seen) :
    ∃ l' ∈ distinctPairs seen ls, l'.source = l.source ∧ l'.target = l.target := by
  have hlinked : (ls.find? (·.ends == l.ends)).isSome = true :=
    List.find?_isSome.mpr ⟨l, hl, beq_self_eq_true l.ends⟩
  obtain ⟨l', hfind⟩ := Option.isSome_iff_exists.mp hlinked
  have hends : l'.ends = l.ends := by simpa using List.find?_some hfind
  obtain ⟨hsource, htarget⟩ := Prod.mk.inj hends
  rw [← hends] at hfind hnew
  rw [← hsource, ← htarget] at hne
  exact ⟨l', mem_distinctPairs_iff.mpr ⟨hne, hnew, hfind⟩, hsource, htarget⟩

/-- The zone of an address that belongs to one is declared. -/
theorem Device.zone_of_mem_zonedAddresses {d : Device} {entry : ZoneRef × Network}
    (h : entry ∈ d.zonedAddresses) :
    d.id = entry.1.device ∧ entry.1.zone ∈ d.zones.map Zone.name := by
  obtain ⟨z, hz, hentry⟩ := List.mem_flatMap.mp h
  obtain ⟨a, _, rfl⟩ := List.mem_map.mp hentry
  exact ⟨rfl, List.mem_map_of_mem hz⟩

/-- The link along a route leads from the zone by which the route leaves to the owner of
its next hop, on another device. -/
theorem Device.routeLink?_eq_some_iff {d : Device} {devices : List Device} {r : Route} {l : Link} :
    d.routeLink? devices r = some l ↔
      ∃ via, r.nextHop = some via ∧ d.egress? r via = some l.source ∧
        ownerOf? devices via = some l.target ∧ l.target.device ≠ d.id ∧
          l.reason = .nextHop via := by
  constructor
  · intro h
    obtain ⟨via, hvia, h⟩ := Option.bind_eq_some_iff.mp h
    obtain ⟨egress, hegress, h⟩ := Option.bind_eq_some_iff.mp h
    obtain ⟨owner, howner, h⟩ := Option.bind_eq_some_iff.mp h
    split at h
    · rename_i hother
      cases h
      exact ⟨via, hvia, hegress, howner, hother, rfl⟩
    · cases h
  · rintro ⟨via, hvia, hegress, howner, hother, hreason⟩
    have hlink : d.routeLink? devices r =
        if l.target.device ≠ d.id then some ⟨l.source, l.target, .nextHop via⟩ else none := by
      simp [routeLink?, hvia, hegress, howner]
    rw [hlink, if_pos hother, ← hreason]

theorem mem_of_mem_laterPairs {α : Type} {xs : List α} {p : α × α} (h : p ∈ laterPairs xs) :
    p.1 ∈ xs ∧ p.2 ∈ xs := by
  induction xs with
  | nil => cases h
  | cons x rest ih =>
    rcases List.mem_append.mp h with hfirst | hlater
    · obtain ⟨y, hy, rfl⟩ := List.mem_map.mp hfirst
      exact ⟨List.mem_cons_self, List.mem_cons_of_mem _ hy⟩
    · exact (ih hlater).imp (List.mem_cons_of_mem _) (List.mem_cons_of_mem _)

theorem ends_of_mem_subnetLinks {p : (ZoneRef × Network) × (ZoneRef × Network)} {l : Link}
    (h : l ∈ subnetLinks p) :
    (l.source = p.1.1 ∧ l.target = p.2.1) ∨ (l.source = p.2.1 ∧ l.target = p.1.1) := by
  obtain ⟨⟨z, a⟩, w, b⟩ := p
  by_cases hsubnet : z.device ≠ w.device ∧ (a.contains b.address ∨ b.contains a.address)
  · simp only [subnetLinks, if_pos hsubnet, List.mem_cons, List.not_mem_nil, or_false] at h
    rcases h with rfl | rfl
    · exact Or.inl ⟨rfl, rfl⟩
    · exact Or.inr ⟨rfl, rfl⟩
  · simp only [subnetLinks, if_neg hsubnet, List.not_mem_nil] at h

namespace Snapshot

variable {s : Snapshot}

theorem declares_of_mem_zonedAddresses {entry : ZoneRef × Network}
    (h : entry ∈ s.devices.flatMap Device.zonedAddresses) : s.Declares entry.1 := by
  obtain ⟨d, hd, hentry⟩ := List.mem_flatMap.mp h
  exact ⟨d, hd, Device.zone_of_mem_zonedAddresses hentry⟩

theorem declares_of_sharedSubnetLinks {l : Link} (h : l ∈ sharedSubnetLinks s.devices) :
    s.Declares l.source ∧ s.Declares l.target := by
  obtain ⟨p, hp, hl⟩ := List.mem_flatMap.mp h
  obtain ⟨hfirst, hsecond⟩ := mem_of_mem_laterPairs hp
  have hfirst := declares_of_mem_zonedAddresses (List.mem_filter.mp hfirst).1
  have hsecond := declares_of_mem_zonedAddresses (List.mem_filter.mp hsecond).1
  rcases ends_of_mem_subnetLinks hl with ⟨hsource, htarget⟩ | ⟨hsource, htarget⟩
  · rw [hsource, htarget]
    exact ⟨hfirst, hsecond⟩
  · rw [hsource, htarget]
    exact ⟨hsecond, hfirst⟩

theorem declares_of_ownerOf? {a : Address} {zone : ZoneRef}
    (h : ownerOf? s.devices a = some zone) : s.Declares zone := by
  obtain ⟨entry, hfind, rfl⟩ := Option.map_eq_some_iff.mp h
  exact declares_of_mem_zonedAddresses (List.mem_of_find?_eq_some hfind)

theorem declares_of_egress? {d : Device} (hd : d ∈ s.devices) {r : Route} {via : Address}
    {zone : ZoneRef} (h : d.egress? r via = some zone) : s.Declares zone := by
  unfold Device.egress? at h
  split at h
  · obtain ⟨z, hfind, rfl⟩ := Option.map_eq_some_iff.mp h
    exact ⟨d, hd, rfl, List.mem_map_of_mem (List.mem_of_find?_eq_some hfind)⟩
  · obtain ⟨entry, hfind, rfl⟩ := Option.map_eq_some_iff.mp h
    exact ⟨d, hd, Device.zone_of_mem_zonedAddresses (List.mem_of_find?_eq_some hfind)⟩

theorem declares_of_nextHopLinks {l : Link} (h : l ∈ nextHopLinks s.devices) :
    s.Declares l.source ∧ s.Declares l.target := by
  obtain ⟨d, hd, hlinks⟩ := List.mem_flatMap.mp h
  obtain ⟨r, _, hlink⟩ := List.mem_filterMap.mp hlinks
  obtain ⟨via, _, hegress, howner, _⟩ := Device.routeLink?_eq_some_iff.mp hlink
  exact ⟨declares_of_egress? hd hegress, declares_of_ownerOf? howner⟩

/-- Whatever the strategy, inferred links join declared zones. -/
theorem declares_of_inferredLinks {inference : Inference} {l : Link}
    (h : l ∈ inference.inferredLinks s.devices) : s.Declares l.source ∧ s.Declares l.target := by
  cases inference with
  | explicitOnly => cases h
  | sharedSubnet => exact declares_of_sharedSubnetLinks h
  | nextHop => exact declares_of_nextHopLinks h

end Snapshot

section Nodes

variable {nodes : List Node} {zone source target : ZoneRef} {kind : EdgeKind}

theorem mem_of_indexOf {i : Fin nodes.length} (h : indexOf nodes zone = .ok i) :
    zone ∈ nodes.map (·.zone) := by
  obtain ⟨hthere, _⟩ := List.findFinIdx?_eq_some_iff.mp (indexOf_eq_ok h)
  exact List.mem_map.mpr ⟨nodes[i], List.getElem_mem i.isLt, beq_iff_eq.mp hthere⟩

theorem indexOf_eq_error {e : GraphError} (h : indexOf nodes zone = .error e) :
    e = .undeclaredZone zone ∧ zone ∉ nodes.map (·.zone) := by
  unfold indexOf at h
  split at h
  · cases h
  · rename_i hfind
    cases h
    refine ⟨rfl, ?_⟩
    intro hmem
    obtain ⟨node, hnode, hzone⟩ := List.mem_map.mp hmem
    have hall := List.findFinIdx?_eq_none_iff.mp hfind node hnode
    simp [hzone] at hall

theorem mem_of_arcBetween {a : Arc nodes.length} (h : arcBetween nodes source target kind = .ok a) :
    source ∈ nodes.map (·.zone) ∧ target ∈ nodes.map (·.zone) := by
  obtain ⟨i, hsource, hrest⟩ := bind_eq_ok.mp h
  obtain ⟨j, htarget, _⟩ := bind_eq_ok.mp hrest
  exact ⟨mem_of_indexOf hsource, mem_of_indexOf htarget⟩

/-- One end of an arc is not among the nodes, and the error names it. -/
def Missing (nodes : List Node) (source target : ZoneRef) (e : GraphError) : Prop :=
  ∃ zone, (zone = source ∨ zone = target) ∧ zone ∉ nodes.map (·.zone) ∧ e = .undeclaredZone zone

theorem missing_of_arcBetween {e : GraphError}
    (h : arcBetween nodes source target kind = .error e) : Missing nodes source target e := by
  rcases bind_eq_error.mp h with hsource | ⟨_, _, hrest⟩
  · obtain ⟨rfl, hmissing⟩ := indexOf_eq_error hsource
    exact ⟨source, Or.inl rfl, hmissing, rfl⟩
  · rcases bind_eq_error.mp hrest with htarget | ⟨_, _, hdone⟩
    · obtain ⟨rfl, hmissing⟩ := indexOf_eq_error htarget
      exact ⟨target, Or.inr rfl, hmissing, rfl⟩
    · cases hdone

/-- One end of a link has no node, or lies on a device that is not there. -/
def LinkFault (nodes : List Node) (devices : List Device) (source target : ZoneRef)
    (e : GraphError) : Prop :=
  ∃ zone, (zone = source ∨ zone = target) ∧
    ((zone ∉ nodes.map (·.zone) ∧ e = .undeclaredZone zone) ∨
      (zone.device ∉ devices.map (·.id) ∧ e = .unknownDevice zone.device))

theorem strangeDevice?_eq_some {links : List Link} {devices : List Device} {device : String}
    (h : strangeDevice? links devices = some device) :
    device ∉ devices.map (·.id) ∧
      ∃ l ∈ links, device = l.source.device ∨ device = l.target.device := by
  have hstrange := List.find?_some h
  obtain ⟨l, hl, hend⟩ := List.mem_flatMap.mp (List.mem_of_find?_eq_some h)
  refine ⟨by simpa using hstrange, l, hl, ?_⟩
  simpa using hend

end Nodes

namespace Graph

variable {s : ResolvedSnapshot} {inference : Inference}

/-- In a snapshot whose graph is built, rule sets and links name zones that have
nodes. -/
theorem mem_nodes_of_build {g : Graph} (h : build s inference = .ok g) :
    (∀ r ∈ s.devices, ∀ rs ∈ r.ruleSets, ⟨r.id, rs.id.fromZone⟩ ∈ s.nodes.map (·.zone) ∧
        ⟨r.id, rs.id.toZone⟩ ∈ s.nodes.map (·.zone)) ∧
      ∀ l ∈ inference.links s.snapshot.devices,
        l.source ∈ s.nodes.map (·.zone) ∧ l.target ∈ s.nodes.map (·.zone) := by
  obtain ⟨filtered, transit, hfiltered, htransit, rfl⟩ := build_eq_ofArcs h
  constructor
  · intro r hr rs hrs
    obtain ⟨arcs, harcs⟩ := mapM_ok_iff.mp ⟨filtered, hfiltered⟩ r hr
    obtain ⟨arc, harc⟩ := mapM_ok_iff.mp ⟨arcs, harcs⟩ rs hrs
    exact mem_of_arcBetween harc
  · intro l hl
    obtain ⟨arc, harc⟩ := mapM_ok_iff.mp ⟨transit, htransit⟩ l hl
    exact mem_of_arcBetween harc

/-- Where no graph is built, a rule set or a link names a zone without a node,
or a link a device that is not there. -/
theorem missing_of_build {e : GraphError} (h : build s inference = .error e) :
    (∃ r ∈ s.devices, ∃ rs ∈ r.ruleSets,
        Missing s.nodes ⟨r.id, rs.id.fromZone⟩ ⟨r.id, rs.id.toZone⟩ e) ∨
      ∃ l ∈ inference.links s.snapshot.devices,
        LinkFault s.nodes s.snapshot.devices l.source l.target e := by
  unfold build at h
  rcases bind_eq_error.mp h with hfiltered | ⟨filtered, _, hrest⟩
  · obtain ⟨r, hr, harcs⟩ := exists_of_mapM_eq_error hfiltered
    obtain ⟨rs, hrs, harc⟩ := exists_of_mapM_eq_error harcs
    exact Or.inl ⟨r, hr, rs, hrs, missing_of_arcBetween harc⟩
  · right
    dsimp only at hrest
    split at hrest
    · rename_i device hstrange
      cases hrest
      obtain ⟨hunknown, l, hl, hend⟩ := strangeDevice?_eq_some hstrange
      rcases hend with rfl | rfl
      · exact ⟨l, hl, l.source, Or.inl rfl, Or.inr ⟨hunknown, rfl⟩⟩
      · exact ⟨l, hl, l.target, Or.inr rfl, Or.inr ⟨hunknown, rfl⟩⟩
    · rcases bind_eq_error.mp hrest with htransit | ⟨_, _, hdone⟩
      · obtain ⟨l, hl, harc⟩ := exists_of_mapM_eq_error htransit
        obtain ⟨zone, hzone, hmissing⟩ := missing_of_arcBetween harc
        exact ⟨l, hl, zone, hzone, Or.inl hmissing⟩
      · cases hdone

end Graph

namespace ResolvedSnapshot

variable {s : ResolvedSnapshot}

/-- The nodes stand for the declared zones. -/
theorem mem_nodes_iff (hlength : s.snapshot.devices.length = s.devices.length) {zone : ZoneRef} :
    zone ∈ s.nodes.map (·.zone) ↔ s.snapshot.Declares zone := by
  have hdevices : (s.snapshot.devices.zip s.devices).map Prod.fst = s.snapshot.devices :=
    List.map_fst_zip hlength.le
  unfold nodes
  rw [List.map_flatMap, List.mem_flatMap]
  constructor
  · rintro ⟨⟨d, r⟩, hpair, hzone⟩
    rw [ResolvedDevice.map_zone_nodes] at hzone
    obtain ⟨name, hname, rfl⟩ := List.mem_map.mp hzone
    exact ⟨d, (List.of_mem_zip hpair).1, rfl, hname⟩
  · rintro ⟨d, hd, hid, hname⟩
    rw [← hdevices] at hd
    obtain ⟨⟨d, r⟩, hpair, rfl⟩ := List.mem_map.mp hd
    refine ⟨(d, r), hpair, ?_⟩
    rw [ResolvedDevice.map_zone_nodes, List.mem_map]
    exact ⟨zone.zone, hname, by rw [hid]⟩

end ResolvedSnapshot

namespace Snapshot

/-- What keeps the graph of a snapshot from being built, each with the error that
states it. -/
inductive HasGraphFault (s : Snapshot) : GraphError → Prop where
  | ruleSet {d : Device} {rs : RuleSet} {zone : String} (hd : d ∈ s.devices)
      (hrs : rs ∈ d.ruleSets) (hzone : zone = rs.fromZone ∨ zone = rs.toZone)
      (h : zone ∉ d.zones.map Zone.name) : HasGraphFault s (.undeclaredZone ⟨d.id, zone⟩)
  | zone {d : Device} {a : Adjacency} {zone : ZoneRef} (hd : d ∈ s.devices)
      (ha : a ∈ d.adjacencies) (hne : a.here d.id ≠ a.peer)
      (hzone : zone = a.here d.id ∨ zone = a.peer) (h : ¬s.Declares zone) :
      HasGraphFault s (.undeclaredZone zone)
  | device {d : Device} {a : Adjacency} (hd : d ∈ s.devices) (ha : a ∈ d.adjacencies)
      (hne : a.here d.id ≠ a.peer) (h : a.peerDevice ∉ s.devices.map (·.id)) :
      HasGraphFault s (.unknownDevice a.peerDevice)

/-- Rule sets between zones of their device, and adjacencies between declared
zones unless both ends are the same. -/
structure GraphValid (s : Snapshot) : Prop where
  ruleSets : ∀ d ∈ s.devices, ∀ rs ∈ d.ruleSets,
    rs.fromZone ∈ d.zones.map Zone.name ∧ rs.toZone ∈ d.zones.map Zone.name
  adjacencies : ∀ d ∈ s.devices, ∀ a ∈ d.adjacencies, a.here d.id ≠ a.peer →
    s.Declares (a.here d.id) ∧ s.Declares a.peer

variable {s : Snapshot} {inference : Inference}

/-- In a valid snapshot a zone that is declared is so on its own device. -/
theorem Declares.mem_zones (hvalid : s.Valid) {d : Device} (hd : d ∈ s.devices) {zone : String}
    (h : s.Declares ⟨d.id, zone⟩) : zone ∈ d.zones.map Zone.name := by
  obtain ⟨d', hd', hid, hzone⟩ := h
  rwa [List.inj_on_of_nodup_map hvalid.distinct hd' hd hid] at hzone

theorem HasGraphFault.not_graphValid {e : GraphError} (h : s.HasGraphFault e) : ¬s.GraphValid := by
  intro hvalid
  cases h with
  | ruleSet hd hrs hzone hmissing =>
    obtain ⟨hfrom, hto⟩ := hvalid.ruleSets _ hd _ hrs
    rcases hzone with rfl | rfl
    · exact hmissing hfrom
    · exact hmissing hto
  | zone hd ha hne hzone hmissing =>
    obtain ⟨hhere, hpeer⟩ := hvalid.adjacencies _ hd _ ha hne
    rcases hzone with rfl | rfl
    · exact hmissing hhere
    · exact hmissing hpeer
  | device hd ha hne hmissing =>
    obtain ⟨_, d', hd', hid, _⟩ := hvalid.adjacencies _ hd _ ha hne
    exact hmissing (List.mem_map.mpr ⟨d', hd', hid⟩)

/-- Every link is inferred between declared zones, or comes from an adjacency
whose ends differ. -/
theorem ends_of_mem_links {l : Link} (h : l ∈ inference.links s.devices) :
    (s.Declares l.source ∧ s.Declares l.target) ∨
      ∃ d ∈ s.devices, ∃ a ∈ d.adjacencies, a.here d.id ≠ a.peer ∧
        ((l.source = a.here d.id ∧ l.target = a.peer) ∨
          (l.source = a.peer ∧ l.target = a.here d.id)) := by
  obtain ⟨hmem, hne⟩ := mem_distinctPairs h
  rcases List.mem_append.mp hmem with hdeclared | hinferred
  · obtain ⟨d, hd, hlinks⟩ := List.mem_flatMap.mp hdeclared
    obtain ⟨a, ha, hl⟩ := List.mem_flatMap.mp hlinks
    refine Or.inr ⟨d, hd, a, ha, ?_, Adjacency.ends_of_mem_links hl⟩
    rcases Adjacency.ends_of_mem_links hl with ⟨hsource, htarget⟩ | ⟨hsource, htarget⟩
    · rwa [hsource, htarget] at hne
    · rw [hsource, htarget] at hne
      exact hne.symm
  · exact Or.inl (declares_of_inferredLinks hinferred)

/-- An adjacency whose ends differ makes for a link between them. -/
theorem exists_link (inference : Inference) {d : Device} (hd : d ∈ s.devices) {a : Adjacency}
    (ha : a ∈ d.adjacencies) (hne : a.here d.id ≠ a.peer) :
    ∃ l ∈ inference.links s.devices, l.source = a.here d.id ∧ l.target = a.peer := by
  have hdeclared : ⟨a.here d.id, a.peer, .declared⟩ ∈ d.declaredLinks :=
    List.mem_flatMap.mpr ⟨a, ha, Adjacency.mem_links_iff.mpr (Or.inl rfl)⟩
  have hmem := List.mem_append_left (inference.inferredLinks s.devices)
    (List.mem_flatMap.mpr ⟨d, hd, hdeclared⟩)
  exact exists_mem_distinctPairs hmem hne List.not_mem_nil

end Snapshot

end Perimeter
