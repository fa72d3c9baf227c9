import Mathlib.Algebra.Group.Nat.Defs
import Perimeter.Network.Cover

/-!
A range of addresses as blocks. Each block is the largest that starts at its place
and does not pass the end of the range, and nothing else about how it is found
matters here. A block that begins inside another ends inside it, unless both begin
at the same address. So a block inside the range that holds the first address of a
listed one cannot begin before it.
-/

namespace Perimeter

namespace Network

theorem last_add_one (n : Network) : n.last + 1 = n.first + n.blockSize := by
  have := n.blockSize_pos
  unfold last
  omega

theorem contains_iff {n : Network} {a : Address} :
    n.contains a = true ↔ n.address.family = a.family ∧ n.first ≤ a.value ∧ a.value ≤ n.last := by
  simp only [contains, Bool.and_eq_true, beq_iff_eq, decide_eq_true_eq, and_assoc]

theorem masked_eq_self {n : Network} (h : n.address.value = n.first) : n.masked = n := by
  obtain ⟨⟨family, value, hvalue⟩, length, hlength⟩ := n
  unfold masked
  simp only [← h]

/-- Blocks come in sizes that divide one another. -/
theorem blockSize_dvd {n b : Network} (hfamily : b.address.family = n.address.family)
    (h : n.length ≤ b.length) : b.blockSize ∣ n.blockSize := by
  unfold blockSize
  rw [hfamily]
  exact Nat.pow_dvd_pow 2 (Nat.sub_le_sub_left h _)

theorem blockSize_dvd_first (n : Network) : n.blockSize ∣ n.first := Nat.dvd_mul_left _ _

/-- A block that begins inside another ends inside it as well, unless both begin at
the same address. -/
theorem last_le_or_first_eq {n b : Network} (hfamily : b.address.family = n.address.family)
    (hlo : n.first ≤ b.first) (hhi : b.first ≤ n.last) :
    b.last ≤ n.last ∨ b.first = n.first := by
  have hn := n.last_add_one
  have hb := b.last_add_one
  rcases Nat.le_total n.length b.length with hlength | hlength
  · have hsize := blockSize_dvd hfamily hlength
    have hend := Nat.dvd_add (Nat.dvd_trans hsize n.blockSize_dvd_first) hsize
    refine Or.inl (Nat.le_of_not_lt fun hover => ?_)
    have := Nat.le_of_lt_add_of_dvd (by omega) hend b.blockSize_dvd_first
    omega
  · have hstart := Nat.dvd_trans (blockSize_dvd hfamily.symm hlength) b.blockSize_dvd_first
    have := Nat.le_of_lt_add_of_dvd (by omega) hstart n.blockSize_dvd_first
    exact Or.inr (Nat.le_antisymm this hlo)

/-- The largest block of a family that starts at `lo` and does not pass `hi`. -/
structure Largest (family : Family) (lo hi : Nat) (n : Network) : Prop where
  family_eq : n.address.family = family
  value_eq : n.address.value = lo
  first_eq : n.first = lo
  last_le : n.last ≤ hi
  largest : ∀ b : Network, b.address.family = family → b.first = lo → b.last ≤ hi → b.last ≤ n.last

/-- What comes of stepping through a range up to `hi`: at each place the largest block
there, then what comes of stepping on behind it. -/
inductive Yields (family : Family) (hi : Nat) : Nat → List Network → Prop where
  | done {lo : Nat} (h : hi < lo) : Yields family hi lo []
  | step {lo : Nat} {n : Network} {rest : List Network} (hn : n.Largest family lo hi)
      (h : Yields family hi (n.last + 1) rest) : Yields family hi lo (n :: rest)

theorem Largest.le_last {family : Family} {lo hi : Nat} {n : Network} (h : n.Largest family lo hi) :
    lo ≤ n.last := by
  rw [← h.first_eq]
  exact n.first_le_last

section Exponent

variable {lo hi : Nat}

/-- The exponent found is that of a block which is aligned and fits. -/
theorem alignedExponent_fits (h : lo ≤ hi) (k : Nat) :
    2 ^ alignedExponent lo hi k ∣ lo ∧ lo + 2 ^ alignedExponent lo hi k ≤ hi + 1 := by
  induction k with
  | zero => exact ⟨Nat.one_dvd lo, Nat.add_le_add_right h 1⟩
  | succ k ih =>
    unfold alignedExponent
    split
    · rename_i hfits
      exact ⟨Nat.dvd_of_mod_eq_zero hfits.1, hfits.2⟩
    · exact ih

/-- No larger exponent is that of a block which is aligned and fits. -/
theorem le_alignedExponent {j k : Nat} (hj : j ≤ k) (hdvd : 2 ^ j ∣ lo)
    (hfits : lo + 2 ^ j ≤ hi + 1) : j ≤ alignedExponent lo hi k := by
  induction k with
  | zero => exact hj
  | succ k ih =>
    unfold alignedExponent
    split
    · exact hj
    · rename_i hnot
      apply ih
      refine Nat.le_of_lt_succ (Nat.lt_of_le_of_ne hj ?_)
      rintro rfl
      exact hnot ⟨Nat.mod_eq_zero_of_dvd hdvd, hfits⟩

end Exponent

section Exponential

variable {a : Address} {k : Nat}

/-- The block of `2 ^ k` addresses in which an address lies. -/
def ofExponent (a : Address) (k : Nat) : Network := ⟨a, a.family.width - k, Nat.sub_le _ _⟩

theorem blockSize_ofExponent (hk : k ≤ a.family.width) : (ofExponent a k).blockSize = 2 ^ k :=
  congrArg (2 ^ ·) (Nat.sub_sub_self hk)

theorem first_ofExponent (hk : k ≤ a.family.width) (hdvd : 2 ^ k ∣ a.value) :
    (ofExponent a k).first = a.value := by
  rw [first, blockSize_ofExponent hk]
  exact Nat.div_mul_cancel hdvd

theorem last_ofExponent (hk : k ≤ a.family.width) (hdvd : 2 ^ k ∣ a.value) :
    (ofExponent a k).last + 1 = a.value + 2 ^ k := by
  rw [last_add_one, first_ofExponent hk hdvd, blockSize_ofExponent hk]

end Exponential

section Listed

variable {family : Family} {lo hi : Nat}

/-- The block with the exponent that is found for a place is the largest one there. -/
theorem largest_ofExponent (hlo : lo ≤ hi) (h : lo ≤ family.top) :
    (ofExponent ⟨family, lo, h⟩ (alignedExponent lo hi family.width)).Largest family lo hi := by
  have hk : alignedExponent lo hi family.width ≤ family.width := alignedExponent_le lo hi _
  obtain ⟨hdvd, hfits⟩ := alignedExponent_fits hlo family.width
  have hlast : (ofExponent ⟨family, lo, h⟩ (alignedExponent lo hi family.width)).last + 1 =
      lo + 2 ^ alignedExponent lo hi family.width := last_ofExponent hk hdvd
  refine ⟨rfl, rfl, first_ofExponent hk hdvd, by omega, ?_⟩
  intro b hfamily hfirst hend
  have hsize : b.blockSize = 2 ^ (family.width - b.length) := by
    rw [blockSize, hfamily]
    rfl
  have hbend := b.last_add_one
  have hexponent : family.width - b.length ≤ alignedExponent lo hi family.width := by
    apply le_alignedExponent (Nat.sub_le _ _)
    · rw [← hsize, ← hfirst]
      exact b.blockSize_dvd_first
    · rw [← hsize]
      omega
  have := Nat.pow_le_pow_right Nat.two_pos hexponent
  omega

/-- The blocks of a range are found one behind the other. -/
theorem yields_blocks (h : hi ≤ family.top) (lo : Nat) :
    Yields family hi lo (blocks family lo hi h) := by
  fun_induction blocks family lo hi h with
  | case1 lo hlo k ih =>
    have hlargest := largest_ofExponent hlo (Nat.le_trans hlo h)
    have hdvd := (alignedExponent_fits hlo family.width).1
    have hnext : (ofExponent ⟨family, lo, Nat.le_trans hlo h⟩ k).last + 1 = lo + Nat.pow 2 k :=
      last_ofExponent (alignedExponent_le lo hi family.width) hdvd
    rw [← hnext] at ih ⊢
    exact .step hlargest ih
  | case2 lo hlo => exact .done (Nat.lt_of_not_le hlo)

end Listed

/-- The blocks that are listed for a range. -/
theorem yields_cover {family : Family} (r : Range family.top) :
    Yields family r.hi r.lo (cover family r) := yields_blocks r.hi_le_top r.lo

namespace Yields

variable {family : Family} {lo hi : Nat} {ns : List Network}

theorem masked (h : Yields family hi lo ns) :
    ∀ n ∈ ns, n.address.family = family ∧ n.masked = n := by
  induction h with
  | done => simp
  | step hn _ ih =>
    rw [List.forall_mem_cons]
    exact ⟨⟨hn.family_eq, masked_eq_self (hn.value_eq.trans hn.first_eq.symm)⟩, ih⟩

/-- The blocks of a range hold its addresses. -/
theorem covers (h : Yields family hi lo ns) {x : Nat} :
    (∃ n ∈ ns, n.first ≤ x ∧ x ≤ n.last) ↔ lo ≤ x ∧ x ≤ hi := by
  induction h with
  | done h =>
    simp only [List.not_mem_nil, false_and, exists_false, false_iff]
    omega
  | step hn _ ih =>
    have := hn.le_last
    have := hn.last_le
    simp only [List.mem_cons, exists_eq_or_imp, ih, hn.first_eq]
    omega

/-- Each block ends before the next one begins. -/
theorem ascending (h : Yields family hi lo ns) : ns.Pairwise fun n m => n.last < m.first := by
  induction h with
  | done => exact .nil
  | step _ hrest ih =>
    refine List.pairwise_cons.mpr ⟨fun m hm => ?_, ih⟩
    exact (hrest.covers.mp ⟨m, hm, Nat.le_refl _, m.first_le_last⟩).1

/-- A block inside a range that holds the first address of a block listed for it
begins with this address: were it to begin before, it would reach over the end of an
earlier block. -/
theorem first_eq (h : Yields family hi lo ns) {n b : Network} (hn : n ∈ ns)
    (hfamily : b.address.family = family) (hlo : lo ≤ b.first) (hhi : b.last ≤ hi)
    (hfirst : b.first ≤ n.first) (hlast : n.first ≤ b.last) : b.first = n.first := by
  induction h with
  | done => cases hn
  | @step lo m rest hm hrest ih =>
    rcases List.mem_cons.mp hn with rfl | hn
    · rw [hm.first_eq] at hfirst ⊢
      exact Nat.le_antisymm hfirst hlo
    · have hbehind := (hrest.covers.mp ⟨n, hn, Nat.le_refl _, n.first_le_last⟩).1
      refine ih hn (Nat.le_of_not_lt fun hinside => ?_)
      have hstart : m.first ≤ b.first := by rwa [hm.first_eq]
      have hends : b.last ≤ m.last := by
        rcases last_le_or_first_eq (hfamily.trans hm.family_eq.symm) hstart
          (Nat.le_of_lt_succ hinside) with hends | hstarts
        · exact hends
        · exact hm.largest b hfamily (hstarts.trans hm.first_eq) hhi
      omega

end Yields

end Network

end Perimeter
