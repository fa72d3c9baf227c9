import Perimeter.Proofs.Interval.NormalForm

/-!
What the tests on interval sets tell. A run of values is looked for in one range
only, the first that does not end before it. The ends of the ranges ascend, so there
is a place that parts the ranges that end before a value from those that do not, and
whatever search finds it comes to the same range. A value is missing between any two
ranges, so no run of members extends over two of them, and one range decides. The
other tests come down to this one, or to there being one normal form only for what
a set holds.
-/

namespace Perimeter

namespace IntervalSet

variable {top : Nat} {lo i : Nat}

/-- A place that parts the ranges of a list: those in front of it end before `lo`,
and from there on none does. -/
structure Parts (rs : List (Range top)) (lo i : Nat) : Prop where
  before : ∀ r ∈ rs.take i, r.hi < lo
  behind : ∀ r ∈ rs.drop i, lo ≤ r.hi

/-- The ends of separated ranges ascend, so every value parts them somewhere. -/
theorem exists_parts {rs : List (Range top)} (h : rs.Pairwise Range.Before) (lo : Nat) :
    ∃ i, Parts rs lo i := by
  induction rs with
  | nil => exact ⟨0, by simp, by simp⟩
  | cons r rest ih =>
    obtain ⟨hbefore, hrest⟩ := List.pairwise_cons.mp h
    by_cases hlo : r.hi < lo
    · obtain ⟨i, hparts⟩ := ih hrest
      refine ⟨i + 1, ?_, hparts.behind⟩
      rw [List.take_succ_cons, List.forall_mem_cons]
      exact ⟨hlo, hparts.before⟩
    · refine ⟨0, by simp, ?_⟩
      rw [List.drop_zero, List.forall_mem_cons]
      refine ⟨Nat.le_of_not_lt hlo, fun s hs => ?_⟩
      have hclear : r.hi + 1 < s.lo := hbefore s hs
      have := s.lo_le_hi
      omega

/-- The range at a parting place is the first that does not end before the value. -/
theorem Parts.find?_eq {rs : List (Range top)} (h : Parts rs lo i) :
    rs.find? (lo ≤ ·.hi) = rs[i]? := by
  have hfront : (rs.take i).find? (lo ≤ ·.hi) = none := by
    rw [List.find?_eq_none]
    intro r hr
    simpa using h.before r hr
  have hback : (rs.drop i).find? (lo ≤ ·.hi) = (rs.drop i).head? := by
    cases hdrop : rs.drop i with
    | nil => rfl
    | cons r rest =>
      have hr : lo ≤ r.hi := h.behind r (by rw [hdrop]; exact List.mem_cons_self)
      rw [List.find?_cons_of_pos (by simpa using hr), List.head?_cons]
  calc rs.find? (lo ≤ ·.hi) = (rs.take i ++ rs.drop i).find? (lo ≤ ·.hi) := by
        rw [List.take_append_drop]
    _ = (rs.drop i).head? := by rw [List.find?_append, hfront, Option.none_or, hback]
    _ = rs[i]? := List.head?_drop

/-- Whichever way the parting place is found, the range there decides. -/
theorem containsRange_of_parts {s : IntervalSet top} (h : Parts s.ranges lo i) (hi : Nat) :
    s.containsRange lo hi = (s.ranges[i]?).any fun r => r.lo ≤ lo && hi ≤ r.hi := by
  unfold containsRange
  rw [h.find?_eq]
  cases s.ranges[i]? <;> rfl

/-- A run of members lies inside one range. -/
theorem exists_range_of_run {s : IntervalSet top} {lo hi : Nat} (h : lo ≤ hi)
    (hrun : ∀ x, lo ≤ x → x ≤ hi → x ∈ s) : ∃ r ∈ s.ranges, r.lo ≤ lo ∧ hi ≤ r.hi := by
  obtain ⟨i, hparts⟩ := exists_parts s.separated lo
  have hcontains := (containsRange_iff h).mpr hrun
  rw [containsRange_of_parts hparts, Option.any_eq_true] at hcontains
  obtain ⟨r, hr, hbounds⟩ := hcontains
  simp only [Bool.and_eq_true, decide_eq_true_eq] at hbounds
  exact ⟨r, List.mem_of_getElem? hr, hbounds⟩

/-- Every test on sets says what it should of their values. One range, found where a
value parts the list, tells whether a whole run of values belongs to a set; asked for
each range of another set in turn, it tells whether that set is a part of it. A set is
empty, full or equal to another just when its values say so. -/
theorem tests_exact (s t : IntervalSet top) :
    (∀ x, s.contains x = true ↔ Covers top s.bounds x) ∧
      (∀ lo, (∃ i, Parts s.ranges lo i) ∧ ∀ i, Parts s.ranges lo i → ∀ hi,
        s.containsRange lo hi = (s.ranges[i]?).any fun r => r.lo ≤ lo && hi ≤ r.hi) ∧
      (∀ lo hi, lo ≤ hi →
        (s.containsRange lo hi = true ↔ ∀ x, lo ≤ x → x ≤ hi → s.contains x = true)) ∧
      (s.isSubset t = true ↔ ∀ x, s.contains x = true → t.contains x = true) ∧
      (s.isEmpty = true ↔ ∀ x, ¬s.contains x = true) ∧
      (s.isFull = true ↔ ∀ x ≤ top, s.contains x = true) ∧
      (s = t ↔ ∀ x, s.contains x = true ↔ t.contains x = true) := by
  simp only [contains_iff]
  refine ⟨fun x => covers_bounds.symm, fun lo => ⟨exists_parts s.separated lo, ?_⟩,
    fun lo hi h => containsRange_iff h, isSubset_iff, isEmpty_iff, isFull_iff, ?_⟩
  · intro i hparts hi
    exact containsRange_of_parts hparts hi
  · constructor
    · rintro rfl x
      exact Iff.rfl
    · exact ext_mem

/-- A run that begins and ends in a set, with one value in between missing. -/
example : (ofBounds [(0, 9), (11, 20)] : IntervalSet 65535).containsRange 5 15 = false ∧
    (ofBounds [(0, 9), (10, 20)] : IntervalSet 65535).containsRange 5 15 = true := by decide

end IntervalSet

end Perimeter
