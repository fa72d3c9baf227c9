import Mathlib.Data.List.Perm.Basic
import Perimeter.Reachability.Query

/-!
Where the ends of a question are found. A named zone is found at its node. Without
a name, only the nodes matter whose addresses contain the given one, and not the
order in which they are listed.
-/

namespace Perimeter

namespace Graph

variable {g g' : Graph} {zone : ZoneRef} {i : Fin g.size} {a : Address}

/-- A named zone is found at a node that stands for it. -/
theorem zone_of_index? (h : g.index? zone = some i) : g.zone i = zone := by
  have hfound := List.find?_some h
  exact beq_iff_eq.mp hfound

theorem index?_eq_none_iff : g.index? zone = none ↔ ∀ i, g.zone i ≠ zone := by
  unfold index?
  rw [List.find?_eq_none]
  constructor
  · intro h i heq
    exact h i (List.mem_finRange i) (beq_iff_eq.mpr heq)
  · intro h i _ heq
    exact h i (beq_iff_eq.mp heq)

/-- Where zones have one node each, each node is found under the name of its zone. -/
theorem index?_zone (hdistinct : Function.Injective g.zone) (i : Fin g.size) :
    g.index? (g.zone i) = some i := by
  cases hfound : g.index? (g.zone i) with
  | none => exact absurd rfl (index?_eq_none_iff.mp hfound i)
  | some j => rw [hdistinct (zone_of_index? hfound)]

theorem locate_zone (hdistinct : Function.Injective g.zone) (i : Fin g.size) (a : Address) :
    g.locate a (some (g.zone i)) = .ok i := by
  rw [locate, index?_zone hdistinct]

theorem map_node_finRange (g : Graph) : (List.finRange g.size).map g.node = g.nodes.toList := by
  apply List.ext_getElem
  · simp
  · intro n _ _
    simp [node, Vector.get]

/-- Every node has its place in the list of nodes. -/
theorem node_mem (i : Fin g.size) : g.node i ∈ g.nodes.toList :=
  g.map_node_finRange ▸ List.mem_map_of_mem (List.mem_finRange i)

theorem exists_node {n : Node} (h : n ∈ g.nodes.toList) : ∃ i, g.node i = n := by
  rw [← map_node_finRange] at h
  obtain ⟨i, _, hi⟩ := List.mem_map.mp h
  exact ⟨i, hi⟩

theorem map_node_zonesContaining (g : Graph) (a : Address) :
    (g.zonesContaining a).map g.node = g.nodes.toList.filter (·.networks.contains a) := by
  rw [← map_node_finRange, List.filter_map]
  rfl

end Graph

/-- Questions fail for one reason, which names the same zones. -/
inductive QueryError.Alike : QueryError → QueryError → Prop where
  | ambiguousZone (a : Address) {zones zones' : List ZoneRef} (h : zones.Perm zones') :
      Alike (.ambiguousZone a zones) (.ambiguousZone a zones')
  | noZone (a : Address) : Alike (.noZone a) (.noZone a)
  | unknownZone (zone : ZoneRef) : Alike (.unknownZone zone) (.unknownZone zone)

namespace Graph

variable {g g' : Graph}

/-- An address is located by itself in both of two graphs at one node, or in both of
them for one reason at none. -/
inductive LocatesAlike (g g' : Graph) (a : Address) (zone : Option ZoneRef) : Prop where
  | found (i : Fin g.size) (j : Fin g'.size) (hi : g.locate a zone = .ok i)
      (hj : g'.locate a zone = .ok j) (hzone : g.zone i = g'.zone j)
  | failed {e e' : QueryError} (he : g.locate a zone = .error e) (he' : g'.locate a zone = .error e')
      (halike : e.Alike e')

theorem LocatesAlike.exists_found {a : Address} {zone : Option ZoneRef} {i : Fin g.size}
    (h : g.LocatesAlike g' a zone) (hi : g.locate a zone = .ok i) :
    ∃ j, g'.locate a zone = .ok j ∧ g.zone i = g'.zone j := by
  cases h with
  | found i' j hi' hj hzone =>
    cases hi.symm.trans hi'
    exact ⟨j, hj, hzone⟩
  | failed he _ _ => cases hi.symm.trans he

theorem locatesAlike_of_named (hnodes : g.nodes.toList.Perm g'.nodes.toList) (a : Address)
    (zone : ZoneRef) : g.LocatesAlike g' a (some zone) := by
  cases hfound : g.index? zone with
  | none =>
    have hmissing : g'.index? zone = none := by
      apply index?_eq_none_iff.mpr
      intro j hj
      obtain ⟨i, hi⟩ := exists_node (hnodes.mem_iff.mpr (node_mem j))
      exact index?_eq_none_iff.mp hfound i ((congrArg Node.zone hi).trans hj)
    refine .failed ?_ ?_ (.unknownZone zone)
    · rw [locate, hfound]
    · rw [locate, hmissing]
  | some i =>
    obtain ⟨k, hk⟩ := exists_node (hnodes.mem_iff.mp (node_mem i))
    cases hother : g'.index? zone with
    | none =>
      have hzone : g'.zone k = zone := (congrArg Node.zone hk).trans (zone_of_index? hfound)
      exact absurd hzone (index?_eq_none_iff.mp hother k)
    | some j =>
      refine .found i j ?_ ?_ ?_
      · rw [locate, hfound]
      · rw [locate, hother]
      · rw [zone_of_index? hfound, zone_of_index? hother]

theorem locatesAlike_of_address (hnodes : g.nodes.toList.Perm g'.nodes.toList) (a : Address) :
    g.LocatesAlike g' a none := by
  have hcontaining : ((g.zonesContaining a).map g.node).Perm ((g'.zonesContaining a).map g'.node) := by
    rw [map_node_zonesContaining, map_node_zonesContaining]
    exact hnodes.filter _
  have hlength := hcontaining.length_eq
  rw [List.length_map, List.length_map] at hlength
  match hhere : g.zonesContaining a, hthere : g'.zonesContaining a with
  | [], [] =>
    refine .failed ?_ ?_ (.noZone a)
    · rw [locate, hhere]
    · rw [locate, hthere]
  | [i], [j] =>
    rw [hhere, hthere] at hcontaining
    have hnode : g.node i = g'.node j := List.singleton_perm_singleton.mp hcontaining
    refine .found i j ?_ ?_ (congrArg Node.zone hnode)
    · rw [locate, hhere]
    · rw [locate, hthere]
  | i :: k :: rest, j :: l :: rest' =>
    have hzones := hcontaining.map Node.zone
    rw [List.map_map, List.map_map, hhere, hthere] at hzones
    refine .failed ?_ ?_ (.ambiguousZone a hzones)
    · rw [locate, hhere]
      rfl
    · rw [locate, hthere]
      rfl
  | [], _ :: _ => rw [hhere, hthere] at hlength; cases hlength
  | _ :: _, [] => rw [hhere, hthere] at hlength; cases hlength
  | [_], _ :: _ :: _ => rw [hhere, hthere] at hlength; cases hlength
  | _ :: _ :: _, [_] => rw [hhere, hthere] at hlength; cases hlength

/-- Graphs with the same nodes, in whatever order, locate the ends of questions alike. -/
theorem locatesAlike (hnodes : g.nodes.toList.Perm g'.nodes.toList) (a : Address)
    (zone : Option ZoneRef) : g.LocatesAlike g' a zone := by
  cases zone with
  | none => exact locatesAlike_of_address hnodes a
  | some zone => exact locatesAlike_of_named hnodes a zone

end Graph

end Perimeter
