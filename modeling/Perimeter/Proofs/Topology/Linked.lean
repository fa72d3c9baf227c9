import Perimeter.Proofs.Topology.Declared

/-!
Which zones are linked. Declared links come first and stay as they are under every
strategy. Inferred links only ever join zones of different devices, and whether two
zones share a subnet does not depend on which of them is listed first.
-/

namespace Perimeter

/-- The zones of the segments of a list of devices: interfaces of zones, each with
its address, that stand for more than a host. -/
def zonedSubnets (devices : List Device) : List (ZoneRef × Network) :=
  (devices.flatMap Device.zonedAddresses).filter (!·.2.isHost)

/-- Two interfaces of different devices are on one segment: the subnet of one of
them holds the address of the other. -/
def SharesSegment (p q : ZoneRef × Network) : Prop :=
  p.1.device ≠ q.1.device ∧ (p.2.contains q.2.address = true ∨ q.2.contains p.2.address = true)

theorem SharesSegment.symm {p q : ZoneRef × Network} (h : SharesSegment p q) : SharesSegment q p :=
  ⟨h.1.symm, h.2.symm⟩

theorem mem_ends_subnetLinks_iff {p q : ZoneRef × Network} {pair : ZoneRef × ZoneRef} :
    pair ∈ (subnetLinks (p, q)).map Link.ends ↔
      SharesSegment p q ∧ (pair = (p.1, q.1) ∨ pair = (q.1, p.1)) := by
  obtain ⟨z, a⟩ := p
  obtain ⟨w, b⟩ := q
  unfold SharesSegment
  by_cases hsegment : z.device ≠ w.device ∧ (a.contains b.address ∨ b.contains a.address)
  · rw [and_iff_right hsegment]
    simp [subnetLinks, hsegment, Link.ends]
  · refine iff_of_false ?_ fun h => hsegment h.1
    simp [subnetLinks, hsegment]

/-- Of two different items of a list, one comes later. -/
theorem mem_laterPairs_or {α : Type} {xs : List α} {x y : α} (hx : x ∈ xs) (hy : y ∈ xs)
    (hne : x ≠ y) : (x, y) ∈ laterPairs xs ∨ (y, x) ∈ laterPairs xs := by
  induction xs with
  | nil => cases hx
  | cons z rest ih =>
    have hstep : laterPairs (z :: rest) = rest.map (z, ·) ++ laterPairs rest := rfl
    rw [hstep, List.mem_append, List.mem_append]
    rcases List.mem_cons.mp hx with rfl | hxrest
    · have hyrest := (List.mem_cons.mp hy).resolve_left hne.symm
      exact Or.inl (Or.inl (List.mem_map_of_mem hyrest))
    · rcases List.mem_cons.mp hy with rfl | hyrest
      · exact Or.inr (Or.inl (List.mem_map_of_mem hxrest))
      · exact (ih hxrest hyrest).imp Or.inr Or.inr

/-- Two zones are linked for a shared subnet, in both directions, when interfaces
of theirs are on one segment, in whatever order the interfaces are listed. -/
theorem mem_ends_sharedSubnetLinks_iff {devices : List Device} {pair : ZoneRef × ZoneRef} :
    pair ∈ (sharedSubnetLinks devices).map Link.ends ↔
      ∃ p ∈ zonedSubnets devices, ∃ q ∈ zonedSubnets devices,
        SharesSegment p q ∧ pair = (p.1, q.1) := by
  have hlinks : sharedSubnetLinks devices =
      (laterPairs (zonedSubnets devices)).flatMap subnetLinks := rfl
  rw [hlinks, List.map_flatMap, List.mem_flatMap]
  constructor
  · rintro ⟨⟨p, q⟩, hlater, hpair⟩
    obtain ⟨hp, hq⟩ := mem_of_mem_laterPairs hlater
    obtain ⟨hshares, rfl | rfl⟩ := mem_ends_subnetLinks_iff.mp hpair
    · exact ⟨p, hp, q, hq, hshares, rfl⟩
    · exact ⟨q, hq, p, hp, hshares.symm, rfl⟩
  · rintro ⟨p, hp, q, hq, hshares, rfl⟩
    have hne : p ≠ q := by
      rintro rfl
      exact hshares.1 rfl
    rcases mem_laterPairs_or hp hq hne with hlater | hlater
    · exact ⟨_, hlater, mem_ends_subnetLinks_iff.mpr ⟨hshares, Or.inl rfl⟩⟩
    · exact ⟨_, hlater, mem_ends_subnetLinks_iff.mpr ⟨hshares.symm, Or.inr rfl⟩⟩

/-- The zone by which a route leaves is one of the device. -/
theorem Device.device_of_egress? {d : Device} {r : Route} {via : Address} {zone : ZoneRef}
    (h : d.egress? r via = some zone) : zone.device = d.id := by
  unfold egress? at h
  split at h
  · obtain ⟨z, _, rfl⟩ := Option.map_eq_some_iff.mp h
    rfl
  · obtain ⟨entry, hfind, rfl⟩ := Option.map_eq_some_iff.mp h
    exact (zone_of_mem_zonedAddresses (List.mem_of_find?_eq_some hfind)).1.symm

theorem device_ne_of_nextHopLinks {devices : List Device} {l : Link}
    (h : l ∈ nextHopLinks devices) : l.source.device ≠ l.target.device := by
  obtain ⟨d, _, hlinks⟩ := List.mem_flatMap.mp h
  obtain ⟨r, _, hlink⟩ := List.mem_filterMap.mp hlinks
  obtain ⟨via, _, hegress, _, hother, _⟩ := Device.routeLink?_eq_some_iff.mp hlink
  rw [Device.device_of_egress? hegress]
  exact hother.symm

namespace Inference

variable {inference : Inference} {devices : List Device}

/-- Whatever the strategy, inferred links join zones of different devices. -/
theorem device_ne_of_inferredLinks {l : Link} (h : l ∈ inference.inferredLinks devices) :
    l.source.device ≠ l.target.device := by
  cases inference with
  | explicitOnly => cases h
  | sharedSubnet =>
    obtain ⟨p, _, q, _, hshares, hends⟩ :=
      mem_ends_sharedSubnetLinks_iff.mp (List.mem_map_of_mem h)
    obtain ⟨hsource, htarget⟩ := Prod.mk.inj hends
    rw [hsource, htarget]
    exact hshares.1
  | nextHop => exact device_ne_of_nextHopLinks h

/-- Two zones are linked when they differ and some link is declared or inferred
between them. -/
theorem mem_ends_links_iff {source target : ZoneRef} :
    (source, target) ∈ (inference.links devices).map Link.ends ↔
      source ≠ target ∧
        ((source, target) ∈ (devices.flatMap Device.declaredLinks).map Link.ends ∨
          (source, target) ∈ (inference.inferredLinks devices).map Link.ends) := by
  rw [← List.mem_append, ← List.map_append]
  constructor
  · intro h
    obtain ⟨l, hl, hends⟩ := List.mem_map.mp h
    obtain ⟨hmem, hne⟩ := mem_distinctPairs hl
    obtain ⟨rfl, rfl⟩ := Prod.mk.inj hends
    exact ⟨hne, List.mem_map_of_mem hmem⟩
  · rintro ⟨hne, h⟩
    obtain ⟨l, hl, hends⟩ := List.mem_map.mp h
    obtain ⟨rfl, rfl⟩ := Prod.mk.inj hends
    obtain ⟨l', hl', hsource, htarget⟩ := exists_mem_distinctPairs hl hne List.not_mem_nil
    exact List.mem_map.mpr ⟨l', hl', Prod.ext hsource htarget⟩

end Inference

/-- What is kept of the front of a list does not depend on what stands behind it. -/
theorem distinctPairs_append (seen : List (ZoneRef × ZoneRef)) (ls behind : List Link) :
    ∃ seen', distinctPairs seen (ls ++ behind) =
      distinctPairs seen ls ++ distinctPairs seen' behind := by
  induction ls generalizing seen with
  | nil => exact ⟨seen, rfl⟩
  | cons l rest ih =>
    rw [List.cons_append, distinctPairs, distinctPairs]
    split
    · exact ih seen
    · obtain ⟨seen', hrest⟩ := ih (l.ends :: seen)
      exact ⟨seen', congrArg (l :: ·) hrest⟩

/-- Under every strategy the declared links come first, as they do by themselves,
and those behind them are inferred. -/
theorem Inference.links_eq_append (inference : Inference) (devices : List Device) :
    ∃ more, inference.links devices = explicitOnly.links devices ++ more ∧
      ∀ l ∈ more, l ∈ inference.inferredLinks devices := by
  obtain ⟨seen, hlinks⟩ := distinctPairs_append [] (devices.flatMap Device.declaredLinks)
    (inference.inferredLinks devices)
  refine ⟨distinctPairs seen (inference.inferredLinks devices), ?_, ?_⟩
  · have hexplicit : explicitOnly.links devices =
        distinctPairs [] (devices.flatMap Device.declaredLinks) := by
      change distinctPairs [] (devices.flatMap Device.declaredLinks ++ []) = _
      rw [List.append_nil]
    rw [hexplicit]
    exact hlinks
  · intro l hl
    exact (mem_distinctPairs hl).1

end Perimeter
