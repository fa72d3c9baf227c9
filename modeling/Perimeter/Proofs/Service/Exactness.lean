import Perimeter.Proofs.Service.Canonical

/-!
What the tests on service sets say about pairs of protocol and port. An empty
set holds no pair. The converse, and the subset test, can be read off the pairs
alone once a set is specific: it then gives no ports to protocols that it does
not list. Everything that a search carries is of this kind, because a
question offers ports of one protocol and evaluation only takes away from them.
Sets made from a list of entries hold what some entry of the list allows.
-/

namespace Perimeter

namespace ServiceSet

theorem not_contains_of_isEmpty {s : ServiceSet} (h : s.isEmpty = true) (p : Protocol)
    (port : UInt16) : s.contains p port = false :=
  Bool.eq_false_iff.mpr ((isEmpty_iff.mp h).2 p port)

theorem eq_empty_of_isEmpty {s : ServiceSet} (h : s.isEmpty = true) : s = .empty := by
  obtain ⟨hrest, hnone⟩ := isEmpty_iff.mp h
  have hempty : ∀ p port, ¬ServiceSet.empty.contains p port = true :=
    (isEmpty_iff.mp (by decide)).2
  exact eq_iff.mpr ⟨hrest, fun p port => iff_of_false (hnone p port) (hempty p port)⟩

theorem isSubset_trans {s t u : ServiceSet} (hst : s.isSubset t = true)
    (htu : t.isSubset u = true) : s.isSubset u = true := by
  obtain ⟨hrest, hpairs⟩ := isSubset_iff.mp hst
  obtain ⟨hrest', hpairs'⟩ := isSubset_iff.mp htu
  apply isSubset_iff.mpr
  constructor
  · apply IntervalSet.isSubset_iff.mpr
    intro n hn
    exact IntervalSet.isSubset_iff.mp hrest' n (IntervalSet.isSubset_iff.mp hrest n hn)
  · intro p port hin
    exact hpairs' p port (hpairs p port hin)

@[simp] theorem not_contains_empty (p : Protocol) (port : UInt16) :
    ServiceSet.empty.contains p port = false :=
  not_contains_of_isEmpty (by decide) p port

@[simp] theorem contains_any (p : Protocol) (port : UInt16) :
    ServiceSet.any.contains p port = true :=
  portsFor_eq_full_iff.mp rfl port

theorem contains_restrictTo {s : ServiceSet} {p q : Protocol} {port : UInt16} :
    (s.restrictTo q).contains p port = true ↔ q = p ∧ s.contains p port = true := by
  rw [restrictTo, contains_ofProtocol, ← contains_iff]
  constructor
  · rintro ⟨rfl, h⟩
    exact ⟨rfl, h⟩
  · rintro ⟨rfl, h⟩
    exact ⟨rfl, h⟩

/-- A set that gives no ports to the protocols it does not list. -/
def Specific (s : ServiceSet) : Prop := s.rest = .empty

theorem specific_empty : ServiceSet.empty.Specific := rfl

theorem specific_ofProtocol (p : Protocol) (ports : PortSet) : (ofProtocol p ports).Specific := rfl

theorem specific_ofFlow (p : Protocol) (port : Option UInt16) : (ofFlow p port).Specific := rfl

theorem contains_ofFlow_port {p q : Protocol} {n port : UInt16} :
    (ofFlow p (some n)).contains q port = true ↔ q = p ∧ port = n := by
  have hlast : n.toNat ≤ lastPort := Nat.le_of_lt_succ n.toNat_lt
  simp [ofFlow, hlast, UInt16.toNat_inj]

theorem contains_ofFlow_allPorts {p : Protocol} {port : UInt16} :
    (ofFlow p none).contains p port = true := by
  have hlast : port.toNat ≤ lastPort := Nat.le_of_lt_succ port.toNat_lt
  simp [ofFlow, hlast]

theorem Specific.union {s t : ServiceSet} (hs : s.Specific) (ht : t.Specific) :
    (s.union t).Specific := by
  change s.rest.union t.rest = .empty
  rw [hs, ht]
  rfl

theorem Specific.intersect {s : ServiceSet} (hs : s.Specific) (t : ServiceSet) :
    (s.intersect t).Specific := by
  change s.rest.intersect t.rest = .empty
  rw [hs]
  rfl

theorem Specific.subtract {s : ServiceSet} (hs : s.Specific) (t : ServiceSet) :
    (s.subtract t).Specific := by
  change s.rest.subtract t.rest = .empty
  rw [hs]
  rfl

theorem Specific.isEmpty_iff {s : ServiceSet} (hs : s.Specific) :
    s.isEmpty = true ↔ ∀ p port, s.contains p port = false := by
  have hrest : s.rest = .empty := hs
  rw [ServiceSet.isEmpty_iff, and_iff_right hrest]
  simp

theorem Specific.exists_contains {s : ServiceSet} (hs : s.Specific) (h : s.isEmpty = false) :
    ∃ p port, s.contains p port = true := by
  refine Classical.byContradiction fun hnone => ?_
  have hempty : s.isEmpty = true := by
    apply hs.isEmpty_iff.mpr
    intro p port
    rw [Bool.eq_false_iff]
    exact fun hcontains => hnone ⟨p, port, hcontains⟩
  rw [h] at hempty
  cases hempty

theorem Specific.isSubset_iff {s : ServiceSet} (hs : s.Specific) (t : ServiceSet) :
    s.isSubset t = true ↔
      ∀ p port, s.contains p port = true → t.contains p port = true := by
  have hrest : s.rest.isSubset t.rest = true := by
    rw [hs]
    rfl
  rw [ServiceSet.isSubset_iff, and_iff_right hrest]

/-- The ports of the ranges that some test on their protocol lets through. -/
private theorem mem_bounds {entries : List (Option Protocol × PortRange)}
    (wanted : Option Protocol → Bool) {port : UInt16} :
    port.toNat ∈ (IntervalSet.ofBounds ((entries.filter (wanted ·.1)).map fun e =>
        (e.2.lo.toNat, e.2.hi.toNat)) : PortSet) ↔
      ∃ e ∈ entries, wanted e.1 = true ∧ e.2.lo ≤ port ∧ port ≤ e.2.hi := by
  rw [IntervalSet.mem_ofBounds]
  constructor
  · rintro ⟨b, hb, hlo, hhi, _⟩
    obtain ⟨e, he, rfl⟩ := List.mem_map.mp hb
    obtain ⟨hmem, hwanted⟩ := List.mem_filter.mp he
    exact ⟨e, hmem, hwanted, UInt16.le_iff_toNat_le.mpr hlo, UInt16.le_iff_toNat_le.mpr hhi⟩
  · rintro ⟨e, hmem, hwanted, hlo, hhi⟩
    refine ⟨_, List.mem_map.mpr ⟨e, List.mem_filter.mpr ⟨hmem, hwanted⟩, rfl⟩, ?_, ?_, ?_⟩
    · exact UInt16.le_iff_toNat_le.mp hlo
    · exact UInt16.le_iff_toNat_le.mp hhi
    · exact Nat.le_of_lt_succ e.2.hi.toNat_lt

/-- The pairs of a list of port ranges are those that some range allows. -/
theorem contains_ofEntries {entries : List (Option Protocol × PortRange)} {p : Protocol}
    {port : UInt16} :
    (ofEntries entries).contains p port = true ↔
      ∃ e ∈ entries, (e.1 = none ∨ e.1 = some p) ∧ e.2.lo ≤ port ∧ port ≤ e.2.hi := by
  rw [contains_iff, ofEntries, portsFor_build]
  split
  · refine (mem_bounds fun q => q.isNone || q == some p).trans ?_
    simp
  · rename_i hp
    refine (mem_bounds (·.isNone)).trans ?_
    have hother : ∀ e ∈ entries, e.1 ≠ some p := by
      intro e he hsome
      exact hp (List.mem_filterMap.mpr ⟨e, he, hsome⟩)
    constructor
    · rintro ⟨e, he, hnone, hport⟩
      exact ⟨e, he, Or.inl (Option.isNone_iff_eq_none.mp hnone), hport⟩
    · rintro ⟨e, he, hnone | hsome, hport⟩
      · exact ⟨e, he, Option.isNone_iff_eq_none.mpr hnone, hport⟩
      · exact absurd hsome (hother e he)

end ServiceSet

end Perimeter
