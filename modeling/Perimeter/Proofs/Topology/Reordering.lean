import Perimeter.Proofs.Snapshot.Reordering
import Perimeter.Proofs.Topology.Listing

/-!
Graphs of snapshots in another order. Links that are inferred depend on zones,
interfaces and routes only, which stay as they are; declared links come in the
order of adjacencies, but all for the same reason, so the first one of a pair is
always the same link. The arcs of the graph are then the same up to their order,
and this order has no effect on the graph.
-/

namespace Perimeter

/-- Every link that a device declares has the same reason. -/
theorem Device.reason_of_declaredLinks {d : Device} {l : Link} (h : l ∈ d.declaredLinks) :
    l.reason = .declared := by
  obtain ⟨a, _, hl⟩ := List.mem_flatMap.mp h
  rcases Adjacency.mem_links_iff.mp hl with rfl | ⟨_, rfl⟩
  · rfl
  · rfl

/-- Links that are told apart by their ends are kept alike in every order, also
with others behind them. -/
theorem distinctPairs_perm {ls ls' : List Link} (hperm : ls.Perm ls')
    (hends : ∀ l ∈ ls, ∀ l' ∈ ls, l.ends = l'.ends → l = l') (behind : List Link) :
    (distinctPairs [] (ls ++ behind)).Perm (distinctPairs [] (ls' ++ behind)) := by
  have hends' : ∀ l ∈ ls', ∀ l' ∈ ls', l.ends = l'.ends → l = l' :=
    fun l hl l' hl' => hends l (hperm.mem_iff.mpr hl) l' (hperm.mem_iff.mpr hl')
  have hfind : ∀ pair, ls.find? (·.ends == pair) = ls'.find? (·.ends == pair) := by
    intro pair
    apply Option.ext
    intro l
    rw [find?_key_eq_some_iff hends, find?_key_eq_some_iff hends', hperm.mem_iff]
  have hnodup : ∀ ls, (distinctPairs [] ls).Nodup :=
    fun ls => (nodup_distinctPairs [] ls).of_map Link.ends
  rw [List.perm_ext_iff_of_nodup (hnodup _) (hnodup _)]
  intro l
  rw [mem_distinctPairs_iff, mem_distinctPairs_iff, List.find?_append, List.find?_append, hfind]

namespace Device.Reordered

variable {d d' : Device}

theorem zonedAddresses_eq (h : d.Reordered d') : d.zonedAddresses = d'.zonedAddresses := by
  unfold zonedAddresses
  rw [h.zones, h.id, h.rearranged.zoneAddresses_eq]

theorem egress?_eq (h : d.Reordered d') : d.egress? = d'.egress? := by
  unfold egress? zoneOfInterface?
  rw [h.zones, h.id, h.zonedAddresses_eq]

end Device.Reordered

namespace Inference

variable {devices devices' : List Device}

theorem zonedAddresses_eq (h : List.Forall₂ Device.Reordered devices devices') :
    devices.flatMap Device.zonedAddresses = devices'.flatMap Device.zonedAddresses := by
  rw [List.flatMap_def, List.flatMap_def,
    map_eq_map_of_forall₂ h fun _ _ hd => hd.zonedAddresses_eq]

theorem inferredLinks_eq (h : List.Forall₂ Device.Reordered devices devices') (i : Inference) :
    i.inferredLinks devices = i.inferredLinks devices' := by
  cases i with
  | explicitOnly => rfl
  | sharedSubnet =>
    change sharedSubnetLinks devices = sharedSubnetLinks devices'
    unfold sharedSubnetLinks
    rw [zonedAddresses_eq h]
  | nextHop =>
    change nextHopLinks devices = nextHopLinks devices'
    unfold nextHopLinks
    rw [List.flatMap_def, List.flatMap_def]
    congr 1
    refine map_eq_map_of_forall₂ h fun d d' hd => ?_
    unfold Device.routeLink? ownerOf?
    rw [hd.routes, hd.id, hd.egress?_eq, zonedAddresses_eq h]

/-- Reordered devices are linked alike. -/
theorem links_perm (h : List.Forall₂ Device.Reordered devices devices') (i : Inference) :
    (i.links devices).Perm (i.links devices') := by
  unfold links
  rw [← inferredLinks_eq h]
  apply distinctPairs_perm
  · rw [List.flatMap_def, List.flatMap_def]
    apply List.Perm.flatten_congr
    rw [List.forall₂_map_left_iff, List.forall₂_map_right_iff]
    exact h.imp fun _ _ hd => hd.rearranged.declaredLinks_perm
  · intro l hl l' hl' hends
    obtain ⟨_, _, hl⟩ := List.mem_flatMap.mp hl
    obtain ⟨_, _, hl'⟩ := List.mem_flatMap.mp hl'
    obtain ⟨hsource, htarget⟩ := Prod.mk.inj hends
    have hreason := Device.reason_of_declaredLinks hl
    rw [← Device.reason_of_declaredLinks hl'] at hreason
    cases l
    cases l'
    cases hsource
    cases htarget
    cases hreason
    rfl

end Inference

/-- A resolved snapshot in another order: its devices, as they are configured and
as they are resolved. -/
structure ResolvedSnapshot.Reordered (s s' : ResolvedSnapshot) : Prop where
  configured : List.Forall₂ Device.Reordered s.snapshot.devices s'.snapshot.devices
  resolved : List.Forall₂ ResolvedDevice.Reordered s.devices s'.devices

theorem ResolvedDevice.Reordered.nodes_eq {r r' : ResolvedDevice} {d d' : Device}
    (h : r.Reordered r') (hd : d.Reordered d') : r.nodes d = r'.nodes d' := by
  unfold nodes zoneNetworks
  rw [hd.zones, hd.id, hd.rearranged.zoneAddresses_eq, h.zoneBooks]

/-- The arcs of a device are those of its rule sets, in their order. -/
theorem ResolvedDevice.Reordered.arcs_perm {r r' : ResolvedDevice} (h : r.Reordered r')
    {nodes : List Node} {arcs arcs' : List (Arc nodes.length)} (harcs : r.arcs nodes = .ok arcs)
    (harcs' : r'.arcs nodes = .ok arcs') : arcs.Perm arcs' := by
  unfold ResolvedDevice.arcs at harcs harcs'
  rw [h.id] at harcs
  obtain ⟨between, hbetween, hperm⟩ := mapM_eq_ok_of_perm harcs h.ruleSets.symm
  cases hbetween.symm.trans harcs'
  exact hperm.symm

namespace ResolvedSnapshot.Reordered

variable {s s' : ResolvedSnapshot}

theorem nodes_eq (h : s.Reordered s') : s.nodes = s'.nodes := by
  unfold ResolvedSnapshot.nodes
  obtain ⟨hconfigured, hresolved⟩ := h
  generalize s.snapshot.devices = ds, s'.snapshot.devices = ds' at hconfigured
  generalize s.devices = rs, s'.devices = rs' at hresolved
  induction hconfigured generalizing rs rs' with
  | nil => rfl
  | cons hd _ ih =>
    cases hresolved with
    | nil => rfl
    | cons hr hrest => exact congrArg₂ (· ++ ·) (hr.nodes_eq hd) (ih _ _ hrest)

/-- The graph of a resolved snapshot does not depend on the order of rule sets
and adjacencies, as long as no two rule sets stand between the same zones. -/
theorem graph_eq (h : s.Reordered s') {inference : Inference} {g g' : Graph}
    (hbuild : Graph.build s inference = .ok g) (hbuild' : Graph.build s' inference = .ok g')
    (hdirections : s.directions.Nodup) (hdirections' : s'.directions.Nodup) : g = g' := by
  obtain ⟨filtered, transit, hfiltered, htransit, rfl⟩ := Graph.build_eq_ofArcs hbuild
  have harcs' := Graph.build_eq_ofArcs hbuild'
  have hapart' := @Graph.apart_of_build s' inference
  rw [← h.nodes_eq] at harcs' hapart'
  obtain ⟨filtered', transit', hfiltered', htransit', rfl⟩ := harcs'
  apply Graph.ofArcs_eq_of_perm _ (Graph.apart_of_build hfiltered htransit hdirections)
    (hapart' hfiltered' htransit' hdirections')
  apply List.Perm.append
  · apply List.Perm.flatten_congr
    exact forall₂_of_forall₂ h.resolved (mapM_eq_ok_iff.mp hfiltered) (mapM_eq_ok_iff.mp hfiltered')
      fun _ _ _ _ hr harcs harcs' => hr.arcs_perm harcs harcs'
  · obtain ⟨between, hbetween, hperm⟩ :=
      mapM_eq_ok_of_perm htransit (inference.links_perm h.configured).symm
    cases hbetween.symm.trans htransit'
    exact hperm.symm

end ResolvedSnapshot.Reordered

end Perimeter
