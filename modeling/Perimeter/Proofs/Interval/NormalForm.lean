import Mathlib.Data.List.Perm.Subperm
import Mathlib.Tactic.Choose
import Perimeter.Interval.Membership

/-!
The normal form of interval sets, in terms of the bounds that a set shows. The
bounds of any list, in any order, with overlaps and with pairs that cover
nothing, are brought into a form in which a value is missing between any two
pairs. Such a list is the only one of its kind for what it covers, and no other
list with the same coverage is shorter: a pair that covers the starts of two
ranges would cover the values missing between them.
-/

namespace Perimeter

/-- The two ends of a range. -/
def Range.bounds {top : Nat} (r : Range top) : Nat × Nat := (r.lo, r.hi)

namespace IntervalSet

variable {top : Nat} {x : Nat}

/-- The bounds of the ranges of a set, in order. -/
def bounds (s : IntervalSet top) : List (Nat × Nat) := s.ranges.map Range.bounds

/-- A value lies between the bounds of some pair. A pair in the wrong order has
nothing between its bounds, and one that passes `top` is none of the domain. -/
def Covers (top : Nat) (bounds : List (Nat × Nat)) (x : Nat) : Prop :=
  ∃ b ∈ bounds, b.1 ≤ x ∧ x ≤ b.2 ∧ b.2 ≤ top

/-- Bounds in order and in the domain, with a value missing between any two pairs. -/
structure Canonical (top : Nat) (bounds : List (Nat × Nat)) : Prop where
  ordered : ∀ b ∈ bounds, b.1 ≤ b.2
  within : ∀ b ∈ bounds, b.2 ≤ top
  apart : bounds.Pairwise fun a b => a.2 + 1 < b.1

theorem covers_map_bounds {rs : List (Range top)} :
    Covers top (rs.map Range.bounds) x ↔ ∃ r ∈ rs, x ∈ r := by
  constructor
  · rintro ⟨_, hb, hlo, hhi, _⟩
    obtain ⟨r, hr, rfl⟩ := List.mem_map.mp hb
    exact ⟨r, hr, hlo, hhi⟩
  · rintro ⟨r, hr, hlo, hhi⟩
    exact ⟨r.bounds, List.mem_map_of_mem hr, hlo, hhi, r.hi_le_top⟩

theorem covers_bounds {s : IntervalSet top} : Covers top s.bounds x ↔ x ∈ s := covers_map_bounds

theorem mem_ofBounds_iff_covers {bounds : List (Nat × Nat)} :
    x ∈ (ofBounds bounds : IntervalSet top) ↔ Covers top bounds x := mem_ofBounds

theorem canonical_map_bounds {rs : List (Range top)} (h : rs.Pairwise Range.Before) :
    Canonical top (rs.map Range.bounds) where
  ordered := by
    rintro _ hb
    obtain ⟨r, _, rfl⟩ := List.mem_map.mp hb
    exact r.lo_le_hi
  within := by
    rintro _ hb
    obtain ⟨r, _, rfl⟩ := List.mem_map.mp hb
    exact r.hi_le_top
  apart := List.pairwise_map.mpr h

/-- Canonical bounds are those of some set. -/
theorem Canonical.exists_bounds {bounds : List (Nat × Nat)} (h : Canonical top bounds) :
    ∃ s : IntervalSet top, s.bounds = bounds := by
  let ranges : List (Range top) := bounds.attach.map fun b =>
    ⟨b.1.1, b.1.2, h.ordered b.1 b.2, h.within b.1 b.2⟩
  have hbounds : ranges.map Range.bounds = bounds := by
    rw [List.map_map]
    exact bounds.attach_map_subtype_val
  have hapart : (ranges.map Range.bounds).Pairwise fun a b => a.2 + 1 < b.1 := by
    rw [hbounds]
    exact h.apart
  have hseparated := List.pairwise_map.mp hapart
  exact ⟨⟨ranges, hseparated⟩, hbounds⟩

/-- Bringing the bounds of a set into normal form gives the set. -/
theorem ofBounds_bounds (s : IntervalSet top) : ofBounds s.bounds = s := by
  apply ext_mem
  intro x
  rw [mem_ofBounds_iff_covers, covers_bounds]

/-- Of two ranges of a separated list, one stands before the other. -/
theorem before_or_before {rs : List (Range top)} (h : rs.Pairwise Range.Before) {r s : Range top}
    (hr : r ∈ rs) (hs : s ∈ rs) : r = s ∨ r.Before s ∨ s.Before r := by
  induction rs with
  | nil => cases hr
  | cons t rest ih =>
    obtain ⟨hbefore, hrest⟩ := List.pairwise_cons.mp h
    rcases List.mem_cons.mp hr with rfl | hr' <;> rcases List.mem_cons.mp hs with rfl | hs'
    · exact Or.inl rfl
    · exact Or.inr (Or.inl (hbefore s hs'))
    · exact Or.inr (Or.inr (hbefore r hr'))
    · exact ih hrest hr' hs'

/-- Ranges of a separated list that share a value are the same. -/
theorem eq_of_mem {rs : List (Range top)} (h : rs.Pairwise Range.Before) {r s : Range top}
    (hr : r ∈ rs) (hs : s ∈ rs) (hxr : x ∈ r) (hxs : x ∈ s) : r = s := by
  rcases before_or_before h hr hs with heq | hbefore | hbefore
  · exact heq
  all_goals
    simp only [Range.Before, Range.mem_def] at *
    omega

/-- The value after a range of a separated list is in none of its ranges. -/
theorem not_mem_behind {rs : List (Range top)} (h : rs.Pairwise Range.Before) {r : Range top}
    (hr : r ∈ rs) : ¬∃ s ∈ rs, r.hi + 1 ∈ s := by
  rintro ⟨s, hs, hin⟩
  have := r.lo_le_hi
  rcases before_or_before h hr hs with rfl | hbefore | hbefore <;>
    simp only [Range.Before, Range.mem_def] at * <;> omega

/-- Bounds that cover what separated ranges hold are at least as many. Each
range has its start in some pair, and no two ranges in the same one. -/
theorem length_le_of_covers {rs : List (Range top)} (h : rs.Pairwise Range.Before)
    {others : List (Nat × Nat)} (hcovers : ∀ x, Covers top others x ↔ ∃ r ∈ rs, x ∈ r) :
    rs.length ≤ others.length := by
  have hstart : ∀ r ∈ rs, ∃ b ∈ others, b.1 ≤ r.lo ∧ r.lo ≤ b.2 ∧ b.2 ≤ top := fun r hr =>
    (hcovers r.lo).mpr ⟨r, hr, r.lo_mem⟩
  choose! pair hpair hlo hhi htop using hstart
  have hnodup : (rs.map pair).Nodup := by
    apply List.pairwise_map.mpr
    apply h.imp_of_mem
    intro r s hr hs hbefore heq
    apply not_mem_behind h hr
    apply (hcovers _).mp
    refine ⟨pair r, hpair r hr, ?_, ?_, htop r hr⟩
    · exact Nat.le_succ_of_le (Nat.le_trans (hlo r hr) r.lo_le_hi)
    · rw [heq]
      exact Nat.le_trans (Nat.le_of_lt hbefore) (hhi s hs)
  have hsubset : rs.map pair ⊆ others := by
    intro b hb
    obtain ⟨r, hr, rfl⟩ := List.mem_map.mp hb
    exact hpair r hr
  calc rs.length = (rs.map pair).length := (List.length_map pair).symm
    _ ≤ others.length := (List.subperm_of_subset hnodup hsubset).length_le

/-- Bounds in any order come out as the one canonical list that covers the same
values. No list with the same coverage is shorter, and two lists with the same
coverage make the same set. -/
theorem ofBounds_normalForm (top : Nat) (bounds : List (Nat × Nat)) :
    Canonical top (ofBounds bounds : IntervalSet top).bounds ∧
      (∀ x, Covers top (ofBounds bounds : IntervalSet top).bounds x ↔ Covers top bounds x) ∧
      ∀ others, (∀ x, Covers top others x ↔ Covers top bounds x) →
        (ofBounds bounds : IntervalSet top).bounds.length ≤ others.length ∧
          (Canonical top others → others = (ofBounds bounds : IntervalSet top).bounds) ∧
          (ofBounds others : IntervalSet top) = ofBounds bounds := by
  have hcoverage : ∀ x, Covers top (ofBounds bounds : IntervalSet top).bounds x ↔
      Covers top bounds x := fun x => covers_bounds.trans mem_ofBounds_iff_covers
  refine ⟨canonical_map_bounds (ofBounds bounds).separated, hcoverage, ?_⟩
  intro others hsame
  have hequal : (ofBounds others : IntervalSet top) = ofBounds bounds := by
    apply ext_mem
    intro x
    rw [mem_ofBounds_iff_covers, mem_ofBounds_iff_covers, hsame]
  refine ⟨?_, ?_, hequal⟩
  · rw [IntervalSet.bounds, List.length_map]
    apply length_le_of_covers (ofBounds bounds).separated
    intro x
    rw [hsame, ← hcoverage, covers_bounds, mem_def]
  · intro hcanonical
    obtain ⟨s, rfl⟩ := hcanonical.exists_bounds
    rw [← hequal, ofBounds_bounds]

/-- Ranges up to the last value, one inside another, one in the wrong order and
two that touch. -/
example : (ofBounds [(65000, 65535), (20, 10), (101, 200), (65535, 65535), (0, 100)] :
    IntervalSet 65535).bounds = [(0, 200), (65000, 65535)] := by decide

end IntervalSet

end Perimeter
