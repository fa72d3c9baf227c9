import Perimeter.Interval.Membership
import Perimeter.Network.Set

/-!
What each operation on sets of addresses does to the addresses in it. An address
is looked for in the part of its own family only, so every operation on the two
parts at once acts on addresses as the operation on either part acts on numbers.
-/

namespace Perimeter

namespace NetworkSet

variable {s t : NetworkSet} {a : Address}

@[simp] theorem not_contains_empty : NetworkSet.empty.contains a = false := by
  obtain ⟨family, value, hvalue⟩ := a
  cases family <;> rfl

@[simp] theorem contains_any : NetworkSet.any.contains a = true := by
  obtain ⟨family, value, hvalue⟩ := a
  cases family
  all_goals exact IntervalSet.contains_iff.mpr (IntervalSet.mem_full.mpr hvalue)

@[simp] theorem contains_union :
    (s.union t).contains a = true ↔ s.contains a = true ∨ t.contains a = true := by
  obtain ⟨family, value, hvalue⟩ := a
  cases family <;> simp [contains, union, IntervalSet.contains_iff]

@[simp] theorem contains_subtract :
    (s.subtract t).contains a = true ↔ s.contains a = true ∧ ¬t.contains a = true := by
  obtain ⟨family, value, hvalue⟩ := a
  cases family <;> simp [contains, subtract, IntervalSet.contains_iff]

/-- The set of one network holds the addresses of its block. -/
@[simp] theorem contains_ofNetwork (n : Network) :
    (ofNetwork n).contains a = true ↔ n.contains a = true := by
  have htop := n.last_le_top
  obtain ⟨family, value, hvalue⟩ := a
  unfold ofNetwork
  split
  all_goals
    rename_i hfamily
    rw [hfamily] at htop
    cases family
  all_goals
    simp [contains, Network.contains, hfamily, htop, IntervalSet.contains_iff,
      IntervalSet.mem_ofBounds]

/-- A set holds every address when it is full in both families. -/
theorem isAny_iff : s.isAny = true ↔ ∀ a, s.contains a = true := by
  rw [isAny, Bool.and_eq_true, IntervalSet.isFull_iff, IntervalSet.isFull_iff]
  constructor
  · rintro ⟨hv4, hv6⟩ ⟨family, value, hvalue⟩
    cases family with
    | v4 => exact IntervalSet.contains_iff.mpr (hv4 value hvalue)
    | v6 => exact IntervalSet.contains_iff.mpr (hv6 value hvalue)
  · intro h
    constructor
    · intro value hvalue
      exact IntervalSet.contains_iff.mp (h ⟨.v4, value, hvalue⟩)
    · intro value hvalue
      exact IntervalSet.contains_iff.mp (h ⟨.v6, value, hvalue⟩)

/-- The part of a set that belongs to one family. -/
def part (s : NetworkSet) : (family : Family) → IntervalSet family.top
  | .v4 => s.v4
  | .v6 => s.v6

/-- An address is looked for in the part of its family. -/
theorem contains_iff {a : Address} : s.contains a = true ↔ a.value ∈ s.part a.family := by
  obtain ⟨family, value, hvalue⟩ := a
  cases family
  all_goals exact IntervalSet.contains_iff

/-- Sets with the same addresses are equal. -/
theorem ext_contains (h : ∀ a, s.contains a = true ↔ t.contains a = true) : s = t := by
  have hpart : ∀ family, s.part family = t.part family := by
    intro family
    apply IntervalSet.ext_mem
    intro x
    constructor
    · intro hx
      have hsame := h ⟨family, x, IntervalSet.le_top_of_mem hx⟩
      exact contains_iff.mp (hsame.mp (contains_iff.mpr hx))
    · intro hx
      have hsame := h ⟨family, x, IntervalSet.le_top_of_mem hx⟩
      exact contains_iff.mp (hsame.mpr (contains_iff.mpr hx))
  have hv4 : s.v4 = t.v4 := hpart .v4
  have hv6 : s.v6 = t.v6 := hpart .v6
  cases s
  cases t
  cases hv4
  cases hv6
  rfl

theorem contains_ofNetworks {ns : List Network} {a : Address} :
    (ofNetworks ns).contains a = true ↔ ∃ n ∈ ns, n.contains a = true := by
  induction ns with
  | nil => simp [ofNetworks]
  | cons n rest ih =>
    have hstep : ofNetworks (n :: rest) = (ofNetwork n).union (ofNetworks rest) := rfl
    rw [hstep, contains_union, contains_ofNetwork, ih]
    simp

end NetworkSet

end Perimeter
