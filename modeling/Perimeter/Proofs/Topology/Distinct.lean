import Perimeter.Proofs.Snapshot.Validation
import Perimeter.Proofs.Topology.Build

/-!
The zones of a snapshot without a fault. No two of its devices have one
identifier and no two zones of a device one name, so a zone is found among the
nodes of the graph once at most, and stands for its node.
-/

namespace Perimeter

theorem pairwise_zip {α β : Type} {R : α → α → Prop} {xs : List α} (h : xs.Pairwise R)
    (ys : List β) : (xs.zip ys).Pairwise fun a b => R a.1 b.1 := by
  induction h generalizing ys with
  | nil => exact .nil
  | @cons x rest hhead _ ih =>
    cases ys with
    | nil => exact .nil
    | cons y others =>
      apply List.Pairwise.cons _ (ih others)
      intro b hb
      exact hhead b.1 (List.of_mem_zip hb).1

namespace ResolvedDevice

theorem map_zone_nodes (r : ResolvedDevice) (d : Device) :
    (r.nodes d).map (·.zone) = (d.zones.map Zone.name).map (ZoneRef.mk d.id) := by
  simp [nodes]

theorem device_of_mem_nodes {r : ResolvedDevice} {d : Device} {zone : ZoneRef}
    (h : zone ∈ (r.nodes d).map (·.zone)) : zone.device = d.id := by
  rw [map_zone_nodes] at h
  obtain ⟨name, _, rfl⟩ := List.mem_map.mp h
  rfl

end ResolvedDevice

/-- Without a fault, the nodes of a resolved snapshot stand for distinct zones:
those of one device differ in their names, those of two in their devices. -/
theorem ResolvedSnapshot.nodup_zones {s : ResolvedSnapshot} (h : s.snapshot.fault? = none) :
    (s.nodes.map (·.zone)).Nodup := by
  obtain ⟨hdevices, hids⟩ := Device.listFault?_eq_none (Option.or_eq_none_iff.mp h).1
  unfold nodes
  rw [List.map_flatMap]
  apply List.nodup_flatMap.mpr
  constructor
  · rintro ⟨d, r⟩ hmem
    have hnames := (Device.valid_of_fault? (hdevices d (List.of_mem_zip hmem).1).2).zones
    rw [ResolvedDevice.map_zone_nodes]
    apply hnames.map
    intro a b heq
    cases heq
    rfl
  · apply (pairwise_zip (List.pairwise_map.mp hids) s.devices).imp
    intro a b hne zone hhere hthere
    apply hne
    rw [← ResolvedDevice.device_of_mem_nodes hhere, ResolvedDevice.device_of_mem_nodes hthere]

/-- In the graph of a snapshot without a fault, every zone has one node. -/
theorem Graph.zone_injective {s : ResolvedSnapshot} {inference : Inference} {g : Graph}
    (hbuild : build s inference = .ok g) (h : s.snapshot.fault? = none) :
    Function.Injective g.zone := by
  obtain ⟨arcs, rfl, _⟩ := build_eq_ok hbuild
  intro i j hzone
  have hin : ∀ k : Fin s.nodes.length, k.val < (s.nodes.map (·.zone)).length := by
    intro k
    rw [List.length_map]
    exact k.isLt
  have heq : (s.nodes.map (·.zone)).get ⟨i, hin i⟩ = (s.nodes.map (·.zone)).get ⟨j, hin j⟩ := by
    rw [List.get_eq_getElem, List.get_eq_getElem, List.getElem_map, List.getElem_map]
    exact hzone
  have hsame := List.nodup_iff_injective_get.mp (ResolvedSnapshot.nodup_zones h) heq
  exact Fin.ext (Fin.mk.inj_iff.mp hsame)

end Perimeter
