import Perimeter.Proofs.Topology.Listing

/-!
Graphs as seen from the zones. Which zones an edge joins and what governs it has
nothing to do with the numbers of nodes or with the order of edges. In a built
graph, zones are joined by the rule sets and by the links of the snapshot, and by
nothing else.
-/

namespace Perimeter

namespace Graph

/-- An edge of the given kind leads from one zone to another. -/
def Joins (g : Graph) (source target : ZoneRef) (kind : EdgeKind) : Prop :=
  ∃ i, ∃ e ∈ g.leaving i, g.zone i = source ∧ g.zone e.target = target ∧ e.kind = kind

variable {g : Graph} {i : Fin g.size}

theorem joins_of_leaving {e : Edge g.size} (h : e ∈ g.leaving i) :
    g.Joins (g.zone i) (g.zone e.target) e.kind :=
  ⟨i, e, h, rfl, rfl, rfl⟩

/-- Where zones have one node each, what joins two zones leaves the node of the first. -/
theorem Joins.exists_edge {target : ZoneRef} {kind : EdgeKind}
    (h : g.Joins (g.zone i) target kind) (hdistinct : Function.Injective g.zone) :
    ∃ e ∈ g.leaving i, g.zone e.target = target ∧ e.kind = kind := by
  obtain ⟨j, e, hedge, hzone, htarget, hkind⟩ := h
  obtain rfl := hdistinct hzone
  exact ⟨e, hedge, htarget, hkind⟩

end Graph

/-- What connects two zones of a resolved snapshot: a rule set of their device, or
a link that the strategy makes for. -/
inductive ResolvedSnapshot.Connects (s : ResolvedSnapshot) (inference : Inference) :
    ZoneRef → ZoneRef → EdgeKind → Prop where
  | ruleSet {r : ResolvedDevice} {rs : ResolvedRuleSet} (hr : r ∈ s.devices)
      (hrs : rs ∈ r.ruleSets) :
      Connects s inference ⟨r.id, rs.id.fromZone⟩ ⟨r.id, rs.id.toZone⟩ (.filtered rs)
  | link {l : Link} (hl : l ∈ inference.links s.snapshot.devices) :
      Connects s inference l.source l.target (.transit l.reason)

namespace Graph

variable {s : ResolvedSnapshot} {inference : Inference} {g : Graph}

theorem joins_ofArcs_iff {nodes : List Node} {arcs : List (Arc nodes.length)}
    {source target : ZoneRef} {kind : EdgeKind} :
    (ofArcs nodes arcs).Joins source target kind ↔
      ∃ a ∈ arcs, a.zones nodes = (source, target) ∧ a.edge.kind = kind := by
  constructor
  · rintro ⟨i, e, hedge, rfl, rfl, rfl⟩
    obtain ⟨a, ha, rfl, rfl⟩ := mem_leaving_ofArcs.mp hedge
    exact ⟨a, ha, rfl, rfl⟩
  · rintro ⟨a, ha, hzones, rfl⟩
    obtain ⟨rfl, rfl⟩ := Prod.mk.inj hzones
    exact ⟨a.source, a.edge, mem_leaving_ofArcs.mpr ⟨a, ha, rfl, rfl⟩, rfl, rfl, rfl⟩

/-- The edges of a built graph are those that the snapshot makes for. -/
theorem joins_iff_connects (hbuild : build s inference = .ok g) {source target : ZoneRef}
    {kind : EdgeKind} : g.Joins source target kind ↔ s.Connects inference source target kind := by
  obtain ⟨filtered, transit, hfiltered, htransit, rfl⟩ := build_eq_ofArcs hbuild
  rw [joins_ofArcs_iff]
  constructor
  · rintro ⟨a, ha, hzones, rfl⟩
    rcases List.mem_append.mp ha with hrules | hlink
    · obtain ⟨group, hgroup, ha⟩ := List.mem_flatten.mp hrules
      obtain ⟨r, hr, harcs⟩ := exists_of_mem_mapM hfiltered hgroup
      obtain ⟨rs, hrs, harc⟩ := exists_of_mem_mapM harcs ha
      obtain ⟨rfl, rfl⟩ := Prod.mk.inj ((zones_of_arcBetween harc).trans hzones)
      rw [kind_of_arcBetween harc]
      exact .ruleSet hr hrs
    · obtain ⟨l, hl, harc⟩ := exists_of_mem_mapM htransit hlink
      obtain ⟨rfl, rfl⟩ := Prod.mk.inj ((zones_of_arcBetween harc).trans hzones)
      rw [kind_of_arcBetween harc]
      exact .link hl
  · intro h
    cases h with
    | ruleSet hr hrs =>
      obtain ⟨group, hgroup, harcs⟩ := exists_of_mem_left (mapM_eq_ok_iff.mp hfiltered) hr
      obtain ⟨a, ha, harc⟩ := exists_of_mem_left (mapM_eq_ok_iff.mp harcs) hrs
      refine ⟨a, ?_, (zones_of_arcBetween harc).symm, kind_of_arcBetween harc⟩
      exact List.mem_append_left _ (List.mem_flatten.mpr ⟨group, hgroup, ha⟩)
    | link hl =>
      obtain ⟨a, ha, harc⟩ := exists_of_mem_left (mapM_eq_ok_iff.mp htransit) hl
      exact ⟨a, List.mem_append_right _ ha, (zones_of_arcBetween harc).symm,
        kind_of_arcBetween harc⟩

/-- The nodes of a built graph are those of the snapshot. -/
theorem nodes_of_build (hbuild : build s inference = .ok g) : g.nodes.toList = s.nodes := by
  obtain ⟨_, _, _, _, rfl⟩ := build_eq_ofArcs hbuild
  rfl

end Graph

end Perimeter
