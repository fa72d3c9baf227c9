import Perimeter.Service.Set

/-!
What each operation on service sets does to the pairs of protocol and port in
it. All of them build their result from the ports they give to the rest and to
some protocols, so it is enough to know the ports of a set so built.
-/

namespace Perimeter

namespace ServiceSet

variable {s t : ServiceSet} {p q : Protocol} {port : UInt16}

theorem portsFor_build {rest : PortSet} {ps : List Protocol} {ports : Protocol → PortSet} :
    (build rest ps ports).portsFor p = if p ∈ ps then ports p else rest := by
  unfold portsFor
  split
  · rename_i entry hfind
    have hkey : entry.1 = p := by simpa using List.find?_some hfind
    have hmem := List.mem_of_find?_eq_some hfind
    simp only [build, List.mem_filter, List.mem_map] at hmem
    obtain ⟨⟨q, hq, rfl⟩, _⟩ := hmem
    cases hkey
    simp [mem_keys.1 hq]
  · rename_i hfind
    split
    · rename_i hp
      have := List.find?_eq_none.1 hfind (p, ports p)
      simp only [build, List.mem_filter, List.mem_map, beq_self_eq_true, not_true_eq_false,
        imp_false, not_and, decide_eq_true_eq, ne_eq, Decidable.not_not] at this
      exact (this ⟨p, mem_keys.2 hp, rfl⟩).symm
    · rfl

/-- A protocol that is not listed has the ports of the rest. -/
theorem portsFor_eq_rest (h : p ∉ s.listed.map (·.1)) : s.portsFor p = s.rest := by
  unfold portsFor
  split
  · rename_i entry hfind
    have hkey : entry.1 = p := by simpa using List.find?_some hfind
    exact absurd (List.mem_map.2 ⟨entry, List.mem_of_find?_eq_some hfind, hkey⟩) h
  · rfl

theorem portsFor_combine {op : PortSet → PortSet → PortSet} :
    (combine op s t).portsFor p = op (s.portsFor p) (t.portsFor p) := by
  rw [combine, portsFor_build]
  split
  · rfl
  · rename_i h
    simp only [keysWith, List.mem_append, not_or] at h
    rw [portsFor_eq_rest h.1, portsFor_eq_rest h.2]

theorem contains_iff : s.contains p port ↔ port.toNat ∈ s.portsFor p :=
  IntervalSet.contains_iff

@[simp] theorem contains_union :
    (s.union t).contains p port ↔ s.contains p port ∨ t.contains p port := by
  simp [contains_iff, union, portsFor_combine]

@[simp] theorem contains_intersect :
    (s.intersect t).contains p port ↔ s.contains p port ∧ t.contains p port := by
  simp [contains_iff, intersect, portsFor_combine]

@[simp] theorem contains_subtract :
    (s.subtract t).contains p port ↔ s.contains p port ∧ ¬t.contains p port := by
  simp [contains_iff, subtract, portsFor_combine]

@[simp] theorem contains_ofProtocol {ports : PortSet} :
    (ofProtocol q ports).contains p port ↔ p = q ∧ port.toNat ∈ ports := by
  rw [contains_iff, ofProtocol, portsFor_build]
  split <;> simp_all

/-- A port is a value below the size of the port space, and the other way round. -/
theorem exists_port_of_le {n : Nat} (h : n ≤ lastPort) : ∃ port : UInt16, port.toNat = n :=
  ⟨n.toUInt16, by simp [lastPort] at h; simp; omega⟩

theorem isSubset_iff_forall_portsFor :
    s.isSubset t ↔ s.rest.isSubset t.rest ∧ ∀ p, (s.portsFor p).isSubset (t.portsFor p) := by
  simp only [isSubset, Bool.and_eq_true, List.all_eq_true]
  refine ⟨fun ⟨hrest, hkeys⟩ => ⟨hrest, fun p => ?_⟩, fun ⟨hrest, h⟩ => ⟨hrest, fun p _ => h p⟩⟩
  by_cases hp : p ∈ s.keysWith t
  · exact hkeys p hp
  · simp only [keysWith, List.mem_append, not_or] at hp
    rw [portsFor_eq_rest hp.1, portsFor_eq_rest hp.2]
    exact hrest

end ServiceSet

end Perimeter
