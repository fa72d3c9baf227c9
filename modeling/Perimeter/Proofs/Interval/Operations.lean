import Perimeter.Proofs.Interval.NormalForm

/-!
Difference and intersection of sets in normal form. Both go through the ranges
of two sets once and put the parts they find one behind the other as they are.
The parts are nevertheless in normal form: two parts of one range are kept
apart by a cut or by a gap of the other set, and the parts of two ranges by the
gap between these.
-/

namespace Perimeter

namespace IntervalSet

variable {top : Nat}

/-- A difference holds the values of the one set that the other lacks. Its
ranges are what the cuts leave, without any merging, and they are canonical. -/
theorem subtract_exact (s t : IntervalSet top) :
    (s.subtract t).ranges = cutRanges s.ranges t.ranges ∧
      Canonical top ((cutRanges s.ranges t.ranges).map Range.bounds) ∧
      ∀ x, (s.subtract t).contains x = true ↔ s.contains x = true ∧ ¬t.contains x = true := by
  refine ⟨rfl, canonical_map_bounds (separated_cutRanges s.separated t.separated), ?_⟩
  intro x
  rw [contains_iff, contains_iff, contains_iff]
  exact mem_subtract

/-- Cuts at both ends of the domain, inside a range, across three ranges and
right before and behind a range. -/
example : ((ofBounds [(0, 9), (20, 29), (40, 49), (60, 69), (80, 65535)] : IntervalSet 65535).subtract
    (ofBounds [(0, 0), (5, 5), (25, 65), (70, 79), (65535, 65535)])).bounds =
      [(1, 4), (6, 9), (20, 24), (66, 69), (80, 65534)] := by decide

/-- An intersection holds the values that both sets have. Its ranges are the
parts that the sweep finds, without any merging, and they are canonical. -/
theorem intersect_exact (s t : IntervalSet top) :
    (s.intersect t).ranges = meetRanges s.ranges t.ranges ∧
      Canonical top ((meetRanges s.ranges t.ranges).map Range.bounds) ∧
      ∀ x, (s.intersect t).contains x = true ↔ s.contains x = true ∧ t.contains x = true := by
  refine ⟨rfl, canonical_map_bounds (separated_meetRanges s.separated t.separated), ?_⟩
  intro x
  rw [contains_iff, contains_iff, contains_iff]
  exact mem_intersect

/-- Ranges that end together, one across two others and two that only abut. -/
example : ((ofBounds [(0, 9), (20, 39), (50, 60)] : IntervalSet 65535).intersect
    (ofBounds [(5, 25), (30, 39), (61, 70)])).bounds = [(5, 9), (20, 25), (30, 39)] := by decide

end IntervalSet

end Perimeter
