import Perimeter.Proofs.Network.Blocks

/-!
Blocks in terms of bits. A network holds the addresses of its family whose first bits
are those of its own address, as many as its prefix is long. Of two networks one
holds the address of the other just when the two agree as far as the shorter of
their prefixes goes.
-/

namespace Perimeter

namespace Address

variable {a b : Address}

/-- The bit at a place, counted from the front. -/
def bit (a : Address) (i : Nat) : Bool := a.value.testBit (a.family.width - 1 - i)

theorem value_lt (a : Address) : a.value < 2 ^ a.family.width := by
  have htop : a.family.top + 1 = 2 ^ a.family.width := a.family.top_add_one
  have := a.value_le_top
  omega

/-- Dropping all but the first bits of two addresses leaves the same number just when
these bits are the same. -/
theorem div_two_pow_eq_iff (hfamily : a.family = b.family) {k : Nat} (hk : k ≤ a.family.width) :
    a.value / 2 ^ (a.family.width - k) = b.value / 2 ^ (a.family.width - k) ↔
      ∀ i < k, a.bit i = b.bit i := by
  -- Place `i` from the front stands at `k - 1 - i` among the bits that are left.
  have hbit : ∀ i < k, a.family.width - 1 - i = k - 1 - i + (a.family.width - k) := by
    intro i hi
    omega
  unfold bit
  rw [← hfamily]
  constructor
  · intro heq i hi
    rw [hbit i hi, ← Nat.testBit_div_two_pow, ← Nat.testBit_div_two_pow, heq]
  · intro hbits
    apply Nat.eq_of_testBit_eq
    intro j
    rw [Nat.testBit_div_two_pow, Nat.testBit_div_two_pow]
    by_cases hj : j < k
    · have hplace := hbit (k - 1 - j) (by omega)
      have hsame := hbits (k - 1 - j) (by omega)
      rwa [hplace, Nat.sub_sub_self (by omega)] at hsame
    · have hwidth : 2 ^ a.family.width ≤ 2 ^ (j + (a.family.width - k)) :=
        Nat.pow_le_pow_right Nat.two_pos (by omega)
      have hb : b.value < 2 ^ a.family.width := hfamily ▸ b.value_lt
      rw [Nat.testBit_lt_two_pow (Nat.lt_of_lt_of_le a.value_lt hwidth),
        Nat.testBit_lt_two_pow (Nat.lt_of_lt_of_le hb hwidth)]

end Address

namespace Network

variable {n m : Network} {a : Address}

theorem contains_iff_div :
    n.contains a = true ↔ n.address.family = a.family ∧
      n.address.value / n.blockSize = a.value / n.blockSize := by
  have hend := n.last_add_one
  have hsize := n.blockSize_pos
  rw [contains_iff, eq_comm (a := n.address.value / n.blockSize), Nat.div_eq_iff hsize]
  unfold first at *
  exact and_congr_right fun _ => by omega

/-- A network holds the addresses that begin with its prefix. -/
theorem contains_iff_bits :
    n.contains a = true ↔
      n.address.family = a.family ∧ ∀ i < n.length, n.address.bit i = a.bit i := by
  rw [contains_iff_div]
  exact and_congr_right fun hfamily => Address.div_two_pow_eq_iff hfamily n.length_le_width

/-- The addresses of two networks of one family agree in their first bits, as many as
the shorter of the two prefixes has. -/
def Agrees (n m : Network) : Prop :=
  n.address.family = m.address.family ∧
    ∀ i < min n.length m.length, n.address.bit i = m.address.bit i

theorem Agrees.symm (h : n.Agrees m) : m.Agrees n := by
  refine ⟨h.1.symm, fun i hi => ?_⟩
  rw [Nat.min_comm] at hi
  exact (h.2 i hi).symm

theorem agrees_of_contains (h : n.contains m.address = true) : n.Agrees m := by
  obtain ⟨hfamily, hbits⟩ := contains_iff_bits.mp h
  exact ⟨hfamily, fun i hi => hbits i (Nat.lt_of_lt_of_le hi (Nat.min_le_left _ _))⟩

theorem Agrees.contains (h : n.Agrees m) (hlength : n.length ≤ m.length) :
    n.contains m.address = true := by
  obtain ⟨hfamily, hbits⟩ := h
  rw [Nat.min_eq_left hlength] at hbits
  exact contains_iff_bits.mpr ⟨hfamily, hbits⟩

/-- Whichever of the two has the shorter prefix holds the address of the other. -/
theorem contains_or_contains_iff :
    n.contains m.address = true ∨ m.contains n.address = true ↔ n.Agrees m := by
  constructor
  · rintro (h | h)
    · exact agrees_of_contains h
    · exact (agrees_of_contains h).symm
  · intro h
    rcases Nat.le_total n.length m.length with hlength | hlength
    · exact Or.inl (h.contains hlength)
    · exact Or.inr (h.symm.contains hlength)

theorem contains_self (n : Network) : n.contains n.address = true :=
  contains_iff_bits.mpr ⟨rfl, fun _ _ => rfl⟩

/-- Clearing the host bits leaves the block as it is. -/
theorem contains_masked : n.masked.contains a = true ↔ n.contains a = true := by
  have hfirst : n.masked.first = n.first :=
    Nat.div_mul_cancel n.blockSize_dvd_first
  have hlast : n.masked.last = n.last := congrArg (· + (n.blockSize - 1)) hfirst
  rw [contains_iff, contains_iff, hfirst, hlast]
  rfl

end Network

end Perimeter
