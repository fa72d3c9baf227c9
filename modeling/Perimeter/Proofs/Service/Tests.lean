import Perimeter.Proofs.Service.Exactness
import Perimeter.Service.Growth

/-!
How far the tests on service sets tell what the pairs in them say. As long as
some protocol is listed by neither set, the rest of both is what that protocol
gets, so the tests are exact. Once every protocol is listed, nothing is left
that the rest stands for, and the tests still look at it: such a set can be
without any pair and yet not count as empty.
-/

namespace Perimeter

namespace ServiceSet

variable {s t : ServiceSet}

/-- The tests on two sets say what the pairs in them say. -/
structure TestsExact (s t : ServiceSet) : Prop where
  isEmpty : s.isEmpty = true ↔ ∀ p port, ¬s.contains p port = true
  isAny : s.isAny = true ↔ ∀ p port, s.contains p port = true
  isSubset : s.isSubset t = true ↔ ∀ p port, s.contains p port = true → t.contains p port = true
  eq : s = t ↔ ∀ p port, s.contains p port = true ↔ t.contains p port = true

/-- A protocol that neither set lists shows the rest of both. -/
theorem testsExact_of_unlisted {q : Protocol} (hunlisted : q ∉ s.keysWith t) : TestsExact s t := by
  simp only [keysWith, List.mem_append, not_or] at hunlisted
  have hs : s.portsFor q = s.rest := portsFor_eq_rest hunlisted.1
  have ht : t.portsFor q = t.rest := portsFor_eq_rest hunlisted.2
  constructor
  · rw [isEmpty_iff, and_iff_right_iff_imp, ← hs]
    intro h
    exact portsFor_eq_empty_iff.mpr (h q)
  · rw [isAny_iff, and_iff_right_iff_imp, ← hs]
    intro h
    exact portsFor_eq_full_iff.mpr (h q)
  · rw [isSubset_iff, and_iff_right_iff_imp, ← hs, ← ht]
    intro h
    apply IntervalSet.isSubset_iff.mpr
    intro n hn
    obtain ⟨port, rfl⟩ := exists_port_of_le (IntervalSet.le_top_of_mem hn)
    exact contains_iff.mp (h q port (contains_iff.mpr hn))
  · rw [eq_iff, and_iff_right_iff_imp, ← hs, ← ht]
    intro h
    exact portsFor_eq_iff.mpr (h q)

/-- Every test asks of the rest what it asks of the pairs. Where some protocol
is listed by neither set, what the pairs say is enough. -/
theorem tests_iff (s t : ServiceSet) :
    (s.isEmpty = true ↔ s.rest = .empty ∧ ∀ p port, ¬s.contains p port = true) ∧
      (s.isAny = true ↔ s.rest = .full ∧ ∀ p port, s.contains p port = true) ∧
      (s.isSubset t = true ↔ s.rest.isSubset t.rest = true ∧
        ∀ p port, s.contains p port = true → t.contains p port = true) ∧
      (s = t ↔ s.rest = t.rest ∧
        ∀ p port, s.contains p port = true ↔ t.contains p port = true) ∧
      ((∃ q, q ∉ s.keysWith t) → TestsExact s t) := by
  refine ⟨isEmpty_iff, isAny_iff, isSubset_iff, eq_iff, ?_⟩
  rintro ⟨q, hunlisted⟩
  exact testsExact_of_unlisted hunlisted

theorem icmpUnlisted_testsExact :
    (∃ q, q ∉ (ServiceSet.any.subtract (.ofProtocol .tcp .full)).keysWith
        (.ofFlow .udp (some 53))) ∧
      TestsExact (.subtract .any (.ofProtocol .tcp .full)) (.ofFlow .udp (some 53)) :=
  ⟨⟨.icmp, by decide⟩, (tests_iff _ _).2.2.2.2 ⟨.icmp, by decide⟩⟩

/-- Every port of every protocol, with each protocol listed. -/
def everyProtocol : ServiceSet := .ofEntries (Protocol.all.map fun p => (some p, .all))

private theorem rest_everyProtocol : everyProtocol.rest = .empty := by
  have hnone : (Protocol.all.map fun p => (some p, PortRange.all)).filter (·.1.isNone) = [] := by
    simp
  change (IntervalSet.ofBounds (((Protocol.all.map fun p => (some p, PortRange.all)).filter
    (·.1.isNone)).map fun e => (e.2.lo.toNat, e.2.hi.toNat)) : PortSet) = .empty
  rw [hnone]
  rfl

private theorem contains_everyProtocol (p : Protocol) (port : UInt16) :
    everyProtocol.contains p port = true := by
  apply contains_ofEntries.mpr
  refine ⟨(some p, .all), List.mem_map.mpr ⟨p, Protocol.mem_all p, rfl⟩, Or.inr rfl, ?_, ?_⟩
  · exact UInt16.le_iff_toNat_le.mpr (Nat.zero_le _)
  · exact UInt16.le_iff_toNat_le.mpr (Nat.le_of_lt_succ port.toNat_lt)

/-- A set that lists every protocol with all its ports is not taken for the set
of all services, and what it leaves of that set is not taken for empty. -/
theorem everyProtocol_tests_inexact :
    (∀ p port, everyProtocol.contains p port = true) ∧ ¬everyProtocol.isAny = true ∧
      ¬ServiceSet.any.isSubset everyProtocol = true ∧ ServiceSet.any ≠ everyProtocol ∧
      (∀ p port, ¬(ServiceSet.any.subtract everyProtocol).contains p port = true) ∧
      ¬(ServiceSet.any.subtract everyProtocol).isEmpty = true := by
  have hne : (IntervalSet.empty : PortSet) ≠ .full := by decide
  refine ⟨contains_everyProtocol, ?_, ?_, ?_, ?_, ?_⟩
  · rw [isAny_iff, rest_everyProtocol]
    exact fun h => hne h.1
  · rw [isSubset_iff, rest_everyProtocol]
    exact fun h => absurd h.1 (by decide)
  · rw [ne_eq, eq_iff, rest_everyProtocol]
    exact fun h => hne h.1.symm
  · intro p port
    simp [contains_everyProtocol]
  · rw [isEmpty_iff]
    have hrest : (ServiceSet.any.subtract everyProtocol).rest = .full := by
      change (IntervalSet.full : PortSet).subtract everyProtocol.rest = .full
      rw [rest_everyProtocol]
      decide
    rw [hrest]
    exact fun h => hne h.1.symm

end ServiceSet

end Perimeter
