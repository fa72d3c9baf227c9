import Mathlib.Order.Fin.Basic
import Perimeter.Proofs.Snapshot.RuleSets
import Perimeter.Proofs.Topology.Declared

/-!
The order in which a node lists its edges. Edges are sorted by their targets
alone, and the sort is stable, so edges to one target keep the order of their
arcs: those of rule sets come before those of links. In the graph of a resolved
snapshot at most one edge of each kind leads from one node to another, and the
listing is a strict order, which the order of the arcs does not affect.
-/

namespace Perimeter

section Key

variable {α : Type} {n : Nat} (key : α → Fin n)

theorem key_le_trans (a b c : α) (hab : decide (key a ≤ key b) = true)
    (hbc : decide (key b ≤ key c) = true) : decide (key a ≤ key c) = true := by
  simp only [decide_eq_true_eq] at hab hbc ⊢
  exact le_trans hab hbc

theorem key_le_total (a b : α) : (decide (key a ≤ key b) || decide (key b ≤ key a)) = true := by
  simpa using le_total (key a) (key b)

/-- A sort by a key keeps the items with one key as they were. -/
theorem filter_mergeSort (xs : List α) (k : Fin n) :
    (xs.mergeSort fun a b => key a ≤ key b).filter (key · = k) = xs.filter (key · = k) := by
  have hsorted : (xs.filter (key · = k)).Pairwise fun a b => decide (key a ≤ key b) = true := by
    apply List.pairwise_of_forall_mem_list
    intro a ha b hb
    have ha := (List.mem_filter.mp ha).2
    have hb := (List.mem_filter.mp hb).2
    simp only [decide_eq_true_eq] at ha hb ⊢
    exact le_of_eq (ha.trans hb.symm)
  have hsublist : (xs.filter (key · = k)).Sublist (xs.mergeSort fun a b => key a ≤ key b) :=
    List.sublist_mergeSort (key_le_trans key) (key_le_total key) hsorted List.filter_sublist
  have hkept := hsublist.filter (key · = k)
  rw [List.filter_filter] at hkept
  simp only [Bool.and_self] at hkept
  exact (hkept.eq_of_length ((List.mergeSort_perm xs _).filter _).length_eq.symm).symm

/-- What holds of items with one key from first to last also holds after a sort
by that key. -/
theorem pairwise_mergeSort_key {R : α → α → Prop} {xs : List α}
    (h : xs.Pairwise fun a b => key a = key b → R a b) :
    (xs.mergeSort fun a b => key a ≤ key b).Pairwise
      fun a b => key a < key b ∨ (key a = key b ∧ R a b) := by
  have hsorted : (xs.mergeSort fun a b => key a ≤ key b).Pairwise
      fun a b => decide (key a ≤ key b) = true :=
    List.pairwise_mergeSort (key_le_trans key) (key_le_total key) xs
  apply List.pairwise_of_forall_sublist
  intro a b hpair
  have hle : key a ≤ key b := by
    simpa using List.pairwise_iff_forall_sublist.mp hsorted hpair
  rcases lt_or_eq_of_le hle with hlt | heq
  · exact Or.inl hlt
  · have hfiltered := hpair.filter (key · = key b)
    rw [filter_mergeSort] at hfiltered
    have htwo : [a, b].filter (key · = key b) = [a, b] := by simp [heq]
    rw [htwo] at hfiltered
    exact Or.inr ⟨heq, List.pairwise_iff_forall_sublist.mp h
      (hfiltered.trans List.filter_sublist) heq⟩

end Key

/-- Whether a rule set governs the edge. -/
def Edge.isFiltered {n : Nat} (e : Edge n) : Bool :=
  match e.kind with
  | .filtered _ => true
  | .transit _ => false

/-- The edge leads to a lower target than another, or to the same one without
being a link before a rule set. -/
def Edge.InOrder {n : Nat} (e f : Edge n) : Prop :=
  e.target < f.target ∨ (e.target = f.target ∧ (f.isFiltered = true → e.isFiltered = true))

/-- The edge leads to a lower target than another, or is governed by a rule set
while the other is a link to the same target. -/
def Edge.Before {n : Nat} (e f : Edge n) : Prop :=
  e.target < f.target ∨ (e.target = f.target ∧ e.isFiltered = true ∧ f.isFiltered = false)

theorem Edge.Before.asymm {n : Nat} {e f : Edge n} (h : e.Before f) : ¬f.Before e := by
  rintro (hlt | ⟨htarget, hfiltered, hlink⟩)
  · rcases h with hlt' | ⟨htarget, _⟩
    · exact lt_asymm hlt hlt'
    · exact lt_irrefl _ (htarget ▸ hlt)
  · rcases h with hlt' | ⟨_, hfiltered', _⟩
    · exact lt_irrefl _ (htarget ▸ hlt')
    · rw [hlink] at hfiltered'
      cases hfiltered'

namespace Graph

/-- Edges to distinct targets are listed by their targets, however the arcs are. -/
theorem leaving_ofArcs_of_perm {nodes : List Node} {arcs : List (Arc nodes.length)}
    {i : Fin nodes.length} {es : List (Edge nodes.length)} (hperm : es.Perm (arcsFrom arcs i))
    (hes : es.Pairwise fun a b => a.target < b.target) : (ofArcs nodes arcs).leaving i = es := by
  let sorted := (arcsFrom arcs i).mergeSort fun a b => a.target ≤ b.target
  have hperm' : sorted.Perm es := (List.mergeSort_perm _ _).trans hperm.symm
  have hsorted : sorted.Pairwise fun a b => decide (a.target ≤ b.target) = true :=
    List.pairwise_mergeSort (key_le_trans _) (key_le_total _) _
  have hgiven : es.Pairwise fun a b => decide (a.target ≤ b.target) = true :=
    hes.imp fun hlt => decide_eq_true (le_of_lt hlt)
  have hdistinct : (es.map (·.target)).Nodup := List.pairwise_map.mpr (hes.imp ne_of_lt)
  have hsame : ∀ a b, a ∈ sorted → b ∈ es → decide (a.target ≤ b.target) = true →
      decide (b.target ≤ a.target) = true → a = b := by
    intro a b ha hb hab hba
    exact List.inj_on_of_nodup_map hdistinct (hperm'.mem_iff.mp ha) hb
      (le_antisymm (of_decide_eq_true hab) (of_decide_eq_true hba))
  rw [leaving_ofArcs]
  exact List.Perm.eq_of_pairwise hsame hsorted hgiven hperm'

/-- What holds of the arcs between two nodes from first to last holds of the
edges between them, and targets ascend. -/
theorem pairwise_leaving {nodes : List Node} {arcs : List (Arc nodes.length)}
    {R : Edge nodes.length → Edge nodes.length → Prop}
    (h : arcs.Pairwise fun a b =>
      a.source = b.source → a.edge.target = b.edge.target → R a.edge b.edge)
    (i : Fin nodes.length) :
    ((ofArcs nodes arcs).leaving i).Pairwise
      fun e f => e.target < f.target ∨ (e.target = f.target ∧ R e f) := by
  rw [leaving_ofArcs]
  apply pairwise_mergeSort_key Edge.target
  unfold arcsFrom
  rw [List.pairwise_map, List.pairwise_filter]
  apply h.imp
  intro a b hab ha hb
  simp only [decide_eq_true_eq] at ha hb
  exact hab (ha.trans hb.symm)

theorem isFiltered_of_arcBetween {nodes : List Node} {source target : ZoneRef}
    {kind : EdgeKind} {a : Arc nodes.length} (h : arcBetween nodes source target kind = .ok a) :
    a.edge.isFiltered = true ↔ ∃ rs, kind = .filtered rs := by
  unfold Edge.isFiltered
  rw [kind_of_arcBetween h]
  cases kind with
  | filtered rs => simp
  | transit reason => simp

/-- The arcs of rule sets, which come first in a built graph, and those of links. -/
theorem isFiltered_of_build {s : ResolvedSnapshot} {inference : Inference}
    {filtered : List (List (Arc s.nodes.length))} {transit : List (Arc s.nodes.length)}
    (hfiltered : s.devices.mapM (·.arcs s.nodes) = .ok filtered)
    (htransit : ((inference.links s.snapshot.devices).mapM fun l =>
      arcBetween s.nodes l.source l.target (.transit l.reason)) = .ok transit) :
    (∀ a ∈ filtered.flatten, a.edge.isFiltered = true) ∧
      ∀ a ∈ transit, a.edge.isFiltered = false := by
  constructor
  · intro a ha
    obtain ⟨group, hgroup, ha⟩ := List.mem_flatten.mp ha
    obtain ⟨r, _, harcs⟩ := exists_of_mem_mapM hfiltered hgroup
    obtain ⟨rs, _, harc⟩ := exists_of_mem_mapM harcs ha
    exact (isFiltered_of_arcBetween harc).mpr ⟨rs, rfl⟩
  · intro a ha
    obtain ⟨l, _, harc⟩ := exists_of_mem_mapM htransit ha
    rw [Bool.eq_false_iff]
    intro hrules
    obtain ⟨_, hkind⟩ := (isFiltered_of_arcBetween harc).mp hrules
    cases hkind

/-- In a built graph, every node lists its edges by target, and of those to one
target the ones that rule sets govern before the links. -/
theorem inOrder_of_build {s : ResolvedSnapshot} {inference : Inference} {g : Graph}
    (hbuild : build s inference = .ok g) (i : Fin g.size) :
    (g.leaving i).Pairwise Edge.InOrder := by
  obtain ⟨filtered, transit, hfiltered, htransit, rfl⟩ := build_eq_ofArcs hbuild
  obtain ⟨hrules, hlinks⟩ := isFiltered_of_build hfiltered htransit
  refine pairwise_leaving (R := fun e f => f.isFiltered = true → e.isFiltered = true) ?_ i
  rw [List.pairwise_append]
  refine ⟨?_, ?_, ?_⟩
  · apply List.pairwise_of_forall_mem_list
    intro a ha b _ _ _ _
    exact hrules a ha
  · apply List.pairwise_of_forall_mem_list
    intro a _ b hb _ _ hfiltered
    rw [hlinks b hb] at hfiltered
    cases hfiltered
  · intro a ha b _ _ _ _
    exact hrules a ha

end Graph

/-- Distinct pairs are distinct. -/
theorem nodup_distinctPairs (seen : List (ZoneRef × ZoneRef)) (ls : List Link) :
    ((distinctPairs seen ls).map Link.ends).Nodup := by
  induction ls generalizing seen with
  | nil => exact List.nodup_nil
  | cons first rest ih =>
    unfold distinctPairs
    split
    · exact ih seen
    · refine List.nodup_cons.mpr ⟨?_, ih (first.ends :: seen)⟩
      intro hmem
      obtain ⟨l, hl, hsame⟩ := List.mem_map.mp hmem
      exact (mem_distinctPairs_iff.mp hl).2.1 (hsame ▸ List.mem_cons_self)

/-- The zones between which an arc runs. -/
def Arc.zones (nodes : List Node) (a : Arc nodes.length) : ZoneRef × ZoneRef :=
  (nodes[a.source].zone, nodes[a.edge.target].zone)

theorem zones_of_arcBetween {nodes : List Node} {source target : ZoneRef} {kind : EdgeKind}
    {a : Arc nodes.length} (h : arcBetween nodes source target kind = .ok a) :
    (source, target) = a.zones nodes := by
  obtain ⟨hsource, htarget⟩ := ends_of_arcBetween h
  have hsource := beq_iff_eq.mp (List.findFinIdx?_eq_some_iff.mp hsource).1
  have htarget := beq_iff_eq.mp (List.findFinIdx?_eq_some_iff.mp htarget).1
  exact Prod.ext hsource.symm htarget.symm

/-- The zones between which the rule sets of a device stand. -/
def ResolvedDevice.directions (r : ResolvedDevice) : List (ZoneRef × ZoneRef) :=
  r.ruleSets.map fun rs => (⟨r.id, rs.id.fromZone⟩, ⟨r.id, rs.id.toZone⟩)

def ResolvedSnapshot.directions (s : ResolvedSnapshot) : List (ZoneRef × ZoneRef) :=
  s.devices.flatMap (·.directions)

theorem ResolvedSnapshot.directions_eq_map_zones {s : ResolvedSnapshot}
    {arcs : List (List (Arc s.nodes.length))} (h : s.devices.mapM (·.arcs s.nodes) = .ok arcs) :
    s.directions = arcs.flatten.map (Arc.zones s.nodes) := by
  unfold directions
  rw [List.map_flatten, List.flatMap_def]
  congr 1
  refine map_eq_map_of_forall₂ (mapM_eq_ok_iff.mp h) fun r group hgroup => ?_
  exact map_eq_map_of_forall₂ (mapM_eq_ok_iff.mp hgroup) fun _ _ harc => zones_of_arcBetween harc

theorem Inference.links_eq_map_zones {nodes : List Node} {links : List Link}
    {arcs : List (Arc nodes.length)}
    (h : (links.mapM fun l => arcBetween nodes l.source l.target (.transit l.reason)) = .ok arcs) :
    links.map Link.ends = arcs.map (Arc.zones nodes) :=
  map_eq_map_of_forall₂ (mapM_eq_ok_iff.mp h) fun _ _ harc => zones_of_arcBetween harc

/-- In a resolved snapshot no two rule sets stand between the same zones. -/
theorem Snapshot.nodup_directions {s : Snapshot} {builtins : Bool} {resolved : ResolvedSnapshot}
    (h : s.resolve builtins = .ok resolved) (hvalid : s.Valid) : resolved.directions.Nodup := by
  obtain ⟨c, _, hdevices⟩ := devices_of_resolve h
  have hconfigured : resolved.directions =
      s.configured.map fun p => (⟨p.1.id, p.2.fromZone⟩, ⟨p.1.id, p.2.toZone⟩) := by
    unfold configured ResolvedSnapshot.directions
    rw [List.map_flatMap, List.flatMap_def, List.flatMap_def]
    congr 1
    refine (map_eq_map_of_forall₂ hdevices ?_).symm
    rintro d r ⟨hid, hruleSets⟩
    rw [List.map_map]
    refine map_eq_map_of_forall₂ hruleSets fun rs resolved hlists => ?_
    rw [hlists.id, hid]
    rfl
  rw [hconfigured]
  apply List.Nodup.of_map fun p : ZoneRef × ZoneRef => (p.1.device, p.1.zone, p.2.zone)
  rw [List.map_map]
  exact nodup_place hvalid

/-- No two arcs run between the same zones, unless a rule set governs the first
and not the second. -/
def Arc.Apart {n : Nat} (a b : Arc n) : Prop :=
  a.source = b.source → a.edge.target = b.edge.target →
    a.edge.isFiltered = true ∧ b.edge.isFiltered = false

theorem Arc.pairwise_apart {nodes : List Node} {arcs : List (Arc nodes.length)}
    (h : (arcs.map (Arc.zones nodes)).Nodup) : arcs.Pairwise Arc.Apart := by
  apply (List.pairwise_map.mp h).imp
  intro a b hne hsource htarget
  exact absurd (congrArg₂ (fun i j : Fin nodes.length => (nodes[i].zone, nodes[j].zone)) hsource
    htarget) hne

namespace Graph

/-- The arcs of a built graph are apart if its rule sets stand in distinct
directions; distinct pairs of zones are linked in any case. -/
theorem apart_of_build {s : ResolvedSnapshot} {inference : Inference}
    {filtered : List (List (Arc s.nodes.length))} {transit : List (Arc s.nodes.length)}
    (hfiltered : s.devices.mapM (·.arcs s.nodes) = .ok filtered)
    (htransit : ((inference.links s.snapshot.devices).mapM fun l =>
      arcBetween s.nodes l.source l.target (.transit l.reason)) = .ok transit)
    (hdirections : s.directions.Nodup) : (filtered.flatten ++ transit).Pairwise Arc.Apart := by
  obtain ⟨hrules, hlinks⟩ := isFiltered_of_build hfiltered htransit
  refine List.pairwise_append.mpr ⟨?_, ?_, ?_⟩
  · apply Arc.pairwise_apart
    rw [← ResolvedSnapshot.directions_eq_map_zones hfiltered]
    exact hdirections
  · apply Arc.pairwise_apart
    rw [← Inference.links_eq_map_zones htransit]
    exact nodup_distinctPairs [] _
  · intro a ha b hb _ _
    exact ⟨hrules a ha, hlinks b hb⟩

theorem pairwise_before {nodes : List Node} {arcs : List (Arc nodes.length)}
    (h : arcs.Pairwise Arc.Apart) (i : Fin nodes.length) :
    ((ofArcs nodes arcs).leaving i).Pairwise Edge.Before :=
  pairwise_leaving (R := fun e f => e.isFiltered = true ∧ f.isFiltered = false) h i

/-- Between two nodes a rule set and a link at most make for an edge. -/
theorem eq_of_isFiltered_eq {s : ResolvedSnapshot} {inference : Inference} {g : Graph}
    (hbuild : build s inference = .ok g) (hdirections : s.directions.Nodup) {i : Fin g.size}
    {e f : Edge g.size} (he : e ∈ g.leaving i) (hf : f ∈ g.leaving i)
    (htarget : e.target = f.target) (hkind : e.isFiltered = f.isFiltered) : e = f := by
  obtain ⟨filtered, transit, hfiltered, htransit, rfl⟩ := build_eq_ofArcs hbuild
  have hapart := apart_of_build hfiltered htransit hdirections
  have hbefore : ∀ {e f : Edge s.nodes.length}, e.target = f.target →
      e.isFiltered = f.isFiltered → ¬e.Before f := by
    rintro e f htarget hkind (hlt | ⟨_, hfiltered, hlink⟩)
    · exact lt_irrefl _ (htarget ▸ hlt)
    · rw [hkind, hlink] at hfiltered
      cases hfiltered
  have hordered : ((ofArcs s.nodes (filtered.flatten ++ transit)).leaving i).Pairwise
      fun e f : Edge s.nodes.length => e.Before f ∨ f.Before e :=
    (pairwise_before hapart i).imp Or.inl
  have : Std.Symm fun e f : Edge s.nodes.length => e.Before f ∨ f.Before e := ⟨fun _ _ => Or.symm⟩
  by_contra hne
  rcases hordered.forall he hf hne with h | h
  · exact hbefore htarget hkind h
  · exact hbefore htarget.symm hkind.symm h

/-- The order in which arcs are listed has no effect on a graph, as long as they
are apart either way. -/
theorem ofArcs_eq_of_perm {nodes : List Node} {arcs arcs' : List (Arc nodes.length)}
    (hperm : arcs.Perm arcs') (h : arcs.Pairwise Arc.Apart) (h' : arcs'.Pairwise Arc.Apart) :
    ofArcs nodes arcs = ofArcs nodes arcs' := by
  have hleaving : ∀ i : Fin nodes.length,
      (ofArcs nodes arcs).leaving i = (ofArcs nodes arcs').leaving i := by
    intro i
    have hsame : ∀ e f : Edge nodes.length, e ∈ (ofArcs nodes arcs).leaving i →
        f ∈ (ofArcs nodes arcs').leaving i → e.Before f → f.Before e → e = f :=
      fun e f _ _ hbefore hafter => absurd hafter hbefore.asymm
    refine List.Perm.eq_of_pairwise hsame (pairwise_before h i) (pairwise_before h' i) ?_
    rw [leaving_ofArcs, leaving_ofArcs]
    have hfrom : (arcsFrom arcs i).Perm (arcsFrom arcs' i) := (hperm.filter _).map _
    exact (List.mergeSort_perm _ _).trans (hfrom.trans (List.mergeSort_perm _ _).symm)
  have hedges : (ofArcs nodes arcs).edges = (ofArcs nodes arcs').edges := by
    apply Vector.ext
    intro i hi
    exact hleaving ⟨i, hi⟩
  exact congrArg (Graph.mk nodes.length ⟨nodes.toArray, by simp⟩) hedges

end Graph

end Perimeter
