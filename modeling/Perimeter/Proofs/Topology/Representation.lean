import Perimeter.Proofs.Reachability.Location
import Perimeter.Proofs.Topology.Joins

/-!
The graph of a snapshot, held against the snapshot. Its nodes are the zones of the
devices, in order and each once. Counted as often as they are listed, its edges are
one for every rule set and one for every link, however the arcs were sorted into
the lists of the nodes that they leave.
-/

namespace Perimeter

/-- Items sorted into groups by their keys are all of the items, each as often as
before. The induction is on the keys: those of the first are taken out of the items
before the others are sorted. -/
theorem flatMap_filter_perm {α κ : Type} [DecidableEq κ] {key : α → κ} {keys : List κ}
    (hnodup : keys.Nodup) {xs : List α} (hall : ∀ x ∈ xs, key x ∈ keys) :
    (keys.flatMap fun k => xs.filter (key · = k)).Perm xs := by
  induction keys generalizing xs with
  | nil =>
    have hnone : xs = [] := List.eq_nil_iff_forall_not_mem.mpr fun x hx => by cases hall x hx
    rw [hnone]
    exact .refl _
  | cons k rest ih =>
    obtain ⟨hk, hrest⟩ := List.nodup_cons.mp hnodup
    have hothers : ∀ x ∈ xs.filter fun x => !decide (key x = k), key x ∈ rest := by
      intro x hx
      obtain ⟨hmem, hne⟩ := List.mem_filter.mp hx
      have hne : key x ≠ k := by simpa using hne
      exact (List.mem_cons.mp (hall x hmem)).resolve_left hne
    have hgroups : ∀ j ∈ rest, (xs.filter fun x => !decide (key x = k)).filter (key · = j) =
        xs.filter (key · = j) := by
      intro j hj
      rw [List.filter_filter]
      apply List.filter_congr
      intro x _
      by_cases hx : key x = j
      · have hne : j ≠ k := fun hsame => hk (hsame ▸ hj)
        simp [hx, hne]
      · simp [hx]
    rw [List.flatMap_cons, List.flatMap_congr fun j hj => (hgroups j hj).symm]
    exact ((ih hrest hothers).append_left _).trans (List.filter_append_perm _ xs)

/-- The zones of a snapshot, device by device. -/
def Snapshot.zoneRefs (s : Snapshot) : List ZoneRef :=
  s.devices.flatMap fun d => d.zones.map fun z => ⟨d.id, z.name⟩

/-- The nodes of a resolved snapshot stand for its zones, in order. -/
theorem ResolvedSnapshot.map_zone_nodes {s : ResolvedSnapshot}
    (hlength : s.snapshot.devices.length = s.devices.length) :
    s.nodes.map (·.zone) = s.snapshot.zoneRefs := by
  have hzones : ∀ p : Device × ResolvedDevice, (p.2.nodes p.1).map (·.zone) =
      p.1.zones.map fun z => ⟨p.1.id, z.name⟩ := by
    rintro ⟨d, r⟩
    rw [ResolvedDevice.map_zone_nodes, List.map_map]
    rfl
  have hdevices : (s.snapshot.devices.zip s.devices).map Prod.fst = s.snapshot.devices :=
    List.map_fst_zip (le_of_eq hlength)
  calc s.nodes.map (·.zone)
      = (s.snapshot.devices.zip s.devices).flatMap fun p =>
          p.1.zones.map fun z => ⟨p.1.id, z.name⟩ := by
        rw [nodes, List.map_flatMap]
        exact List.flatMap_congr fun p _ => hzones p
    _ = s.snapshot.zoneRefs := by
        rw [Snapshot.zoneRefs, ← hdevices, List.flatMap_map, hdevices]

/-- Zones that a link connects are distinct. -/
theorem ResolvedSnapshot.Connects.ends_ne {s : ResolvedSnapshot} {inference : Inference}
    {source target : ZoneRef} {reason : LinkReason}
    (h : s.Connects inference source target (.transit reason)) : source ≠ target := by
  cases h with
  | link hl => exact (mem_distinctPairs hl).2

/-- An edge by the zones that it joins and by what governs it. -/
structure Connection where
  source : ZoneRef
  target : ZoneRef
  kind : EdgeKind

/-- The edge that a link makes for. -/
def Link.connection (l : Link) : Connection := ⟨l.source, l.target, .transit l.reason⟩

/-- The edge of a rule set of a device: it runs between the zones of the rule set, and
the rules that are enabled filter it. -/
structure Connection.Enforces (e : Connection) (c : Catalog) (p : Device × RuleSet) : Prop where
  source : e.source = ⟨p.1.id, p.2.fromZone⟩
  target : e.target = ⟨p.1.id, p.2.toZone⟩
  kind : ∃ resolved, e.kind = .filtered resolved ∧ resolved.Lists c p.1.id p.2

def Edge.connection (nodes : List Node) (i : Fin nodes.length) (e : Edge nodes.length) :
    Connection :=
  ⟨nodes[i].zone, nodes[e.target].zone, e.kind⟩

def Arc.connection (nodes : List Node) (a : Arc nodes.length) : Connection :=
  a.edge.connection nodes a.source

theorem connection_of_arcBetween {nodes : List Node} {source target : ZoneRef} {kind : EdgeKind}
    {a : Arc nodes.length} (h : arcBetween nodes source target kind = .ok a) :
    a.connection nodes = ⟨source, target, kind⟩ := by
  obtain ⟨rfl, rfl⟩ := Prod.mk.inj (zones_of_arcBetween h)
  rw [← kind_of_arcBetween h]
  rfl

namespace Graph

/-- All edges of a graph, in the order of the nodes that they leave. -/
def connections (g : Graph) : List Connection :=
  (List.finRange g.size).flatMap fun i =>
    (g.leaving i).map fun e => ⟨g.zone i, g.zone e.target, e.kind⟩

/-- The edges of a graph are its arcs, each as often as it is listed. -/
theorem connections_ofArcs (nodes : List Node) (arcs : List (Arc nodes.length)) :
    (ofArcs nodes arcs).connections.Perm (arcs.map (Arc.connection nodes)) := by
  have hfrom : ∀ i : Fin nodes.length, (arcsFrom arcs i).map (Edge.connection nodes i) =
      (arcs.filter (·.source = i)).map (Arc.connection nodes) := by
    intro i
    rw [arcsFrom, List.map_map]
    apply List.map_congr_left
    intro a ha
    have hsource : a.source = i := by simpa using (List.mem_filter.mp ha).2
    rw [← hsource]
    rfl
  have hsorted : (ofArcs nodes arcs).connections = (List.finRange nodes.length).flatMap fun i =>
      ((arcsFrom arcs i).mergeSort fun a b => a.target ≤ b.target).map (Edge.connection nodes i) :=
    List.flatMap_congr fun i _ =>
      congrArg (List.map (Edge.connection nodes i)) (leaving_ofArcs nodes arcs i)
  have hgroups : ((List.finRange nodes.length).flatMap fun i => arcs.filter (·.source = i)).Perm
      arcs := flatMap_filter_perm (List.nodup_finRange _) fun a _ => List.mem_finRange a.source
  have hmapped := hgroups.map (Arc.connection nodes)
  rw [List.map_flatMap, List.flatMap_congr fun i _ => (hfrom i).symm] at hmapped
  rw [hsorted]
  exact (List.Perm.flatMap_left _ fun i _ => (List.mergeSort_perm _ _).map _).trans hmapped

/-- A graph shows a snapshot with links between its zones, and nothing else. -/
structure Represents (g : Graph) (s : Snapshot) (c : Catalog) (links : List Link) : Prop where
  /-- The nodes follow the devices, and on each device its zones. -/
  zones : (List.finRange g.size).map g.zone = s.zoneRefs
  /-- A zone is found at its node, and at that one only. -/
  indexed : ∀ zone i, g.index? zone = some i ↔ g.zone i = zone
  /-- Every node has a list of edges. -/
  lists : g.edges.toList.length = s.zoneRefs.length
  inRange : ∀ edges ∈ g.edges.toList, ∀ e ∈ edges, e.target.val < s.zoneRefs.length
  /-- There is one edge for each rule set and one for each link, and no other. -/
  connections : ∃ enforcing, List.Forall₂ (fun p e => Connection.Enforces e c p) s.configured
      enforcing ∧ g.connections.Perm (enforcing ++ links.map Link.connection)
  /-- Targets ascend. To one target at most two edges lead, the first governed by a
  rule set and the second a link. -/
  listing : ∀ i, (g.leaving i).Pairwise Edge.Before
  /-- No link leads back to where it comes from. -/
  loopless : ∀ i, ∀ e ∈ g.leaving i, ∀ reason, e.kind = .transit reason → e.target ≠ i

variable {s : ResolvedSnapshot} {inference : Inference} {g : Graph}

/-- One edge for each rule set of the resolved devices and one for each link. -/
theorem connections_of_build (hbuild : build s inference = .ok g) :
    g.connections.Perm ((s.devices.flatMap fun r => r.ruleSets.map fun rs =>
        ⟨⟨r.id, rs.id.fromZone⟩, ⟨r.id, rs.id.toZone⟩, .filtered rs⟩) ++
      (inference.links s.snapshot.devices).map Link.connection) := by
  obtain ⟨filtered, transit, hfiltered, htransit, rfl⟩ := build_eq_ofArcs hbuild
  refine (connections_ofArcs s.nodes _).trans (.of_eq ?_)
  rw [List.map_append, List.map_flatten, List.flatMap_def]
  congr 1
  · congr 1
    refine (map_eq_map_of_forall₂ (mapM_eq_ok_iff.mp hfiltered) fun r group hgroup => ?_).symm
    exact map_eq_map_of_forall₂ (mapM_eq_ok_iff.mp hgroup) fun _ _ harc =>
      (connection_of_arcBetween harc).symm
  · exact (map_eq_map_of_forall₂ (mapM_eq_ok_iff.mp htransit) fun _ _ harc =>
      (connection_of_arcBetween harc).symm).symm

/-- Links join distinct zones, so none leads back to the node that it leaves. -/
theorem target_ne_of_transit (hbuild : build s inference = .ok g) {i : Fin g.size}
    {e : Edge g.size} (hedge : e ∈ g.leaving i) {reason : LinkReason}
    (hkind : e.kind = .transit reason) : e.target ≠ i := by
  intro hsame
  have hconnects := (joins_iff_connects hbuild).mp (joins_of_leaving hedge)
  rw [hkind] at hconnects
  exact hconnects.ends_ne (congrArg g.zone hsame.symm)

end Graph

namespace Snapshot

variable {s : Snapshot} {builtins : Bool} {resolved : ResolvedSnapshot} {inference : Inference}
  {g : Graph}

/-- The edges of rule sets in the graph of a resolved snapshot are those of the
configured ones, in order. -/
theorem exists_enforcing {c : Catalog}
    (hdevices : List.Forall₂ (fun d (r : ResolvedDevice) => r.id = d.id ∧
      List.Forall₂ (fun rs resolved => ResolvedRuleSet.Lists resolved c d.id rs) d.ruleSets
        r.ruleSets) s.devices resolved.devices) :
    List.Forall₂ (fun p e => Connection.Enforces e c p) s.configured
      (resolved.devices.flatMap fun r => r.ruleSets.map fun rs =>
        ⟨⟨r.id, rs.id.fromZone⟩, ⟨r.id, rs.id.toZone⟩, .filtered rs⟩) := by
  unfold configured
  apply List.rel_flatMap hdevices
  rintro d r ⟨hid, hruleSets⟩
  rw [List.forall₂_map_left_iff, List.forall₂_map_right_iff]
  apply hruleSets.imp
  intro rs resolved hlists
  rw [hid, hlists.id]
  exact ⟨rfl, rfl, resolved, rfl, hlists⟩

/-- The graph that is built for a resolved snapshot represents it: a node for each
zone, an edge for each rule set and each link, every one in its place. -/
theorem graph_represents (hresolve : s.resolve builtins = .ok resolved)
    (hbuild : Graph.build resolved inference = .ok g) :
    ∃ c, Catalog.ofBooks s.networkBooks s.serviceBooks builtins = .ok c ∧
      g.Represents s c (inference.links s.devices) := by
  obtain ⟨hfault, _, _, _, _, _, _, hresolved⟩ := resolve_eq_ok_iff.mp hresolve
  have hsame : resolved.snapshot = s := by rw [hresolved]
  obtain ⟨c, hcatalog, hdevices⟩ := devices_of_resolve hresolve
  have hdistinct := Graph.zone_injective hbuild (hsame ▸ hfault)
  have hzones : (List.finRange g.size).map g.zone = s.zoneRefs := by
    have hnodes := ResolvedSnapshot.map_zone_nodes (hsame.symm ▸ hdevices.length_eq)
    rw [← Graph.nodes_of_build hbuild, ← Graph.map_node_finRange, List.map_map, hsame] at hnodes
    exact hnodes
  have hsize : g.size = s.zoneRefs.length := by
    rw [← hzones, List.length_map, List.length_finRange]
  refine ⟨c, hcatalog, hzones, ?_, ?_, ?_, ?_, ?_, ?_⟩
  · intro zone i
    constructor
    · exact Graph.zone_of_index?
    · rintro rfl
      exact Graph.index?_zone hdistinct i
  · rw [Vector.length_toList, hsize]
  · intro edges _ e _
    exact hsize ▸ e.target.isLt
  · refine ⟨_, exists_enforcing hdevices, ?_⟩
    have hconnections := Graph.connections_of_build hbuild
    rwa [hsame] at hconnections
  · intro i
    obtain ⟨filtered, transit, hfiltered, htransit, rfl⟩ := Graph.build_eq_ofArcs hbuild
    exact Graph.pairwise_before (Graph.apart_of_build hfiltered htransit
      (nodup_directions hresolve (valid_of_fault? hfault))) i
  · intro i e hedge reason hkind
    exact Graph.target_ne_of_transit hbuild hedge hkind

/-- Two devices with a way from each into the other, over zones that share a subnet. One
of them links two of its own zones as well, next to the rule set between them. -/
def crossover : Snapshot where
  toolRunId := none
  devices := [
    ⟨"left", [⟨"up", [⟨⟨.v4, 168431361, by decide⟩, 28, by decide⟩]⟩],
      [⟨"lan", [], none⟩, ⟨"wan", ["up"], none⟩], [⟨none, "lan", "wan", .permit, []⟩], [],
      [⟨"lan", "left", "wan", false⟩]⟩,
    ⟨"right", [⟨"up", [⟨⟨.v4, 168431362, by decide⟩, 28, by decide⟩]⟩],
      [⟨"wan", ["up"], none⟩, ⟨"lan", [], none⟩], [⟨none, "wan", "lan", .deny, []⟩], [], []⟩]
  networkBooks := []
  serviceBooks := []

private def crossoverResolved : ResolvedSnapshot :=
  ⟨crossover, crossover.digest, .empty,
    [⟨"left", [⟨⟨"left", "lan", "wan", none⟩, .permit, []⟩], []⟩,
      ⟨"right", [⟨⟨"right", "wan", "lan", none⟩, .deny, []⟩], []⟩]⟩

private theorem crossover_resolve : crossover.resolve false = .ok crossoverResolved :=
  resolve_eq_ok_iff.mpr ⟨by decide, ⟨.empty, .empty⟩, .empty,
    crossoverResolved.devices.map (·, .empty), rfl, rfl, rfl, rfl⟩

theorem crossover_represented :
    ∃ resolved g c, crossover.resolve false = .ok resolved ∧
      Graph.build resolved .sharedSubnet = .ok g ∧
      Catalog.ofBooks crossover.networkBooks crossover.serviceBooks false = .ok c ∧
      g.Represents crossover c (Inference.sharedSubnet.links crossover.devices) ∧
      (Inference.sharedSubnet.links crossover.devices).length = 3 := by
  have hbuild : ∃ g, Graph.build crossoverResolved .sharedSubnet = .ok g := ⟨_, rfl⟩
  obtain ⟨g, hbuild⟩ := hbuild
  obtain ⟨c, hcatalog, hrepresents⟩ := graph_represents crossover_resolve hbuild
  exact ⟨crossoverResolved, g, c, crossover_resolve, hbuild, hcatalog, hrepresents, by decide⟩

end Snapshot

end Perimeter
