import Perimeter.Proofs.Checked
import Perimeter.Proofs.Topology.Walk

/-!
What a built graph holds. Every edge comes from an arc between two zones that
were found among the nodes, and a zone is always found at its first node. So
two nodes with edges are the same as soon as they stand for one zone.
-/

namespace Perimeter

theorem indexOf_eq_ok {nodes : List Node} {zone : ZoneRef} {i : Fin nodes.length}
    (h : indexOf nodes zone = .ok i) : nodes.findFinIdx? (·.zone == zone) = some i := by
  unfold indexOf at h
  split at h
  · rename_i j hfind
    cases h
    exact hfind
  · cases h

/-- The ends of an arc are the nodes at which its zones are found. -/
theorem ends_of_arcBetween {nodes : List Node} {source target : ZoneRef} {kind : EdgeKind}
    {a : Arc nodes.length} (h : arcBetween nodes source target kind = .ok a) :
    nodes.findFinIdx? (·.zone == source) = some a.source ∧
      nodes.findFinIdx? (·.zone == target) = some a.edge.target := by
  obtain ⟨i, hsource, h⟩ := bind_eq_ok.mp h
  obtain ⟨j, htarget, h⟩ := bind_eq_ok.mp h
  cases h
  exact ⟨indexOf_eq_ok hsource, indexOf_eq_ok htarget⟩

theorem kind_of_arcBetween {nodes : List Node} {source target : ZoneRef} {kind : EdgeKind}
    {a : Arc nodes.length} (h : arcBetween nodes source target kind = .ok a) :
    a.edge.kind = kind := by
  obtain ⟨_, _, h⟩ := bind_eq_ok.mp h
  obtain ⟨_, _, h⟩ := bind_eq_ok.mp h
  cases h
  rfl

/-- The rule sets of all devices, in order. -/
def ResolvedSnapshot.ruleSets (s : ResolvedSnapshot) : List ResolvedRuleSet :=
  s.devices.flatMap (·.ruleSets)

namespace Graph

/-- The edges that leave a node, as their arcs are listed. -/
def arcsFrom {n : Nat} (arcs : List (Arc n)) (i : Fin n) : List (Edge n) :=
  (arcs.filter (·.source = i)).map (·.edge)

theorem leaving_ofArcs (nodes : List Node) (arcs : List (Arc nodes.length))
    (i : Fin nodes.length) :
    (ofArcs nodes arcs).leaving i = (arcsFrom arcs i).mergeSort fun a b => a.target ≤ b.target :=
  Vector.getElem_ofFn i.isLt

/-- Edges whose targets ascend already are listed as their arcs are. -/
theorem leaving_ofArcs_of_ascending {nodes : List Node} {arcs : List (Arc nodes.length)}
    {i : Fin nodes.length}
    (h : (arcsFrom arcs i).Pairwise fun a b => decide (a.target ≤ b.target) = true) :
    (ofArcs nodes arcs).leaving i = arcsFrom arcs i :=
  (leaving_ofArcs nodes arcs i).trans (List.mergeSort_of_pairwise h)

theorem mem_leaving_ofArcs {nodes : List Node} {arcs : List (Arc nodes.length)}
    {i : Fin nodes.length} {e : Edge nodes.length} :
    e ∈ (ofArcs nodes arcs).leaving i ↔ ∃ a ∈ arcs, a.source = i ∧ a.edge = e := by
  refine (iff_of_eq (congrArg (fun es : List (Edge nodes.length) => e ∈ es)
    (leaving_ofArcs nodes arcs i))).trans ?_
  rw [List.mem_mergeSort, arcsFrom, List.mem_map]
  simp [and_assoc]

/-- A built graph consists of the arcs of the rule sets and those of the links. -/
theorem build_eq_ofArcs {s : ResolvedSnapshot} {inference : Inference} {g : Graph}
    (h : build s inference = .ok g) :
    ∃ filtered transit, s.devices.mapM (·.arcs s.nodes) = .ok filtered ∧
      ((inference.links s.snapshot.devices).mapM fun l =>
        arcBetween s.nodes l.source l.target (.transit l.reason)) = .ok transit ∧
      g = ofArcs s.nodes (filtered.flatten ++ transit) := by
  unfold build at h
  obtain ⟨filtered, hfiltered, hrest⟩ := bind_eq_ok.mp h
  dsimp only at hrest
  split at hrest
  · cases hrest
  · obtain ⟨transit, htransit, hdone⟩ := bind_eq_ok.mp hrest
    cases hdone
    exact ⟨filtered, transit, hfiltered, htransit, rfl⟩

/-- Each of these runs between zones that were found, for a rule set or a link. -/
theorem build_eq_ok {s : ResolvedSnapshot} {inference : Inference} {g : Graph}
    (h : build s inference = .ok g) :
    ∃ arcs : List (Arc s.nodes.length), g = ofArcs s.nodes arcs ∧
      ∀ a ∈ arcs, ∃ source target kind, arcBetween s.nodes source target kind = .ok a ∧
        ∀ rs, kind = .filtered rs → rs ∈ s.ruleSets := by
  obtain ⟨filtered, transit, hfiltered, htransit, rfl⟩ := build_eq_ofArcs h
  refine ⟨_, rfl, ?_⟩
  intro a ha
  rcases List.mem_append.mp ha with hrules | hlink
  · obtain ⟨group, hgroup, ha⟩ := List.mem_flatten.mp hrules
    obtain ⟨r, hr, harcs⟩ := exists_of_mem_mapM hfiltered hgroup
    obtain ⟨rs, hrs, harc⟩ := exists_of_mem_mapM harcs ha
    refine ⟨_, _, _, harc, ?_⟩
    rintro _ ⟨rfl⟩
    exact List.mem_flatMap.mpr ⟨r, hr, hrs⟩
  · obtain ⟨l, _, harc⟩ := exists_of_mem_mapM htransit hlink
    refine ⟨_, _, _, harc, ?_⟩
    rintro _ ⟨⟩

/-- In a built graph, the rule set that filters an edge is one of the snapshot. -/
theorem mem_ruleSets_of_leaving {s : ResolvedSnapshot} {inference : Inference} {g : Graph}
    (hbuild : build s inference = .ok g) {i : Fin g.size} {e : Edge g.size}
    (hedge : e ∈ g.leaving i) {rs : ResolvedRuleSet} (hkind : e.kind = .filtered rs) :
    rs ∈ s.ruleSets := by
  obtain ⟨arcs, rfl, hfound⟩ := build_eq_ok hbuild
  obtain ⟨a, ha, rfl, rfl⟩ := mem_leaving_ofArcs.mp hedge
  obtain ⟨_, _, kind, harc, hruleSet⟩ := hfound a ha
  exact hruleSet rs ((kind_of_arcBetween harc).symm.trans hkind)

/-- A node comes first among the nodes of its zone. -/
def Foremost (g : Graph) (i : Fin g.size) : Prop := ∀ j, g.zone j = g.zone i → i ≤ j

theorem Foremost.eq_of_zone_eq {g : Graph} {i j : Fin g.size} (hi : g.Foremost i)
    (hj : g.Foremost j) (hzone : g.zone i = g.zone j) : i = j :=
  Fin.le_antisymm (hi j hzone.symm) (hj i hzone)

/-- Distinct nodes that come first stand for distinct zones. -/
theorem nodup_map_zone {g : Graph} {is : List (Fin g.size)} (hnodup : is.Nodup)
    (hfirst : ∀ i ∈ is, g.Foremost i) : (is.map g.zone).Nodup := by
  apply hnodup.map_on
  intro i hi j hj hzone
  exact (hfirst i hi).eq_of_zone_eq (hfirst j hj) hzone

theorem foremost_of_found {nodes : List Node} (arcs : List (Arc nodes.length)) {zone : ZoneRef}
    {i : Fin nodes.length} (h : nodes.findFinIdx? (·.zone == zone) = some i) :
    (ofArcs nodes arcs).Foremost i := by
  obtain ⟨hthere, hbefore⟩ := List.findFinIdx?_eq_some_iff.mp h
  intro j hzone
  refine Nat.le_of_not_lt fun hlt => hbefore j hlt ?_
  exact beq_iff_eq.mpr (hzone.trans (beq_iff_eq.mp hthere))

/-- In a built graph edges lead from and to nodes that come first. -/
theorem foremost_of_build {s : ResolvedSnapshot} {inference : Inference} {g : Graph}
    (hbuild : build s inference = .ok g) {i : Fin g.size} {e : Edge g.size}
    (hedge : e ∈ g.leaving i) : g.Foremost i ∧ g.Foremost e.target := by
  obtain ⟨arcs, rfl, hfound⟩ := build_eq_ok hbuild
  obtain ⟨a, ha, rfl, rfl⟩ := mem_leaving_ofArcs.mp hedge
  obtain ⟨_, _, _, harc, _⟩ := hfound a ha
  obtain ⟨hsource, htarget⟩ := ends_of_arcBetween harc
  exact ⟨foremost_of_found arcs hsource, foremost_of_found arcs htarget⟩

/-- In a built graph every stop of a walk comes first if its start does. -/
theorem Walk.foremost {s : ResolvedSnapshot} {inference : Inference} {g : Graph}
    (hbuild : build s inference = .ok g) {i j : Fin g.size} {es : List (Edge g.size)}
    (h : g.Walk i es j) (hfirst : g.Foremost i) : ∀ k ∈ g.stops i es, g.Foremost k := by
  induction h with
  | nil i =>
    intro k hk
    rw [List.mem_singleton.mp hk]
    exact hfirst
  | cons hedge _ ih =>
    intro k hk
    rcases List.mem_cons.mp hk with rfl | hk
    · exact hfirst
    · exact ih (foremost_of_build hbuild hedge).2 k hk

/-- In a built graph both ends of a walk with an edge come first. -/
theorem Walk.foremost_ends {s : ResolvedSnapshot} {inference : Inference} {g : Graph}
    (hbuild : build s inference = .ok g) {i : Fin g.size} {es : List (Edge g.size)}
    {e : Edge g.size} (h : g.Walk i (es ++ [e]) e.target) :
    g.Foremost i ∧ g.Foremost e.target := by
  have hstart : g.Foremost i := by
    cases hes : es ++ [e] with
    | nil => cases List.append_ne_nil_of_right_ne_nil es (List.cons_ne_nil e []) hes
    | cons f rest =>
      rw [hes] at h
      cases h with
      | cons hedge _ => exact (foremost_of_build hbuild hedge).1
  refine ⟨hstart, h.foremost hbuild hstart _ ?_⟩
  rw [stops_snoc]
  exact List.mem_append_right _ (List.mem_singleton.mpr rfl)

end Graph

end Perimeter
