import Perimeter.Network.Basic

/-!
Ranges of addresses as networks. A range is covered from its low end by the
largest aligned block that fits, then the next one.
-/

namespace Perimeter

namespace Network

/-- The largest exponent, up to the given one, of a block that starts at `lo`,
is aligned to its own size and does not pass `hi`. -/
def alignedExponent (lo hi : Nat) : Nat → Nat
  | 0 => 0
  | k + 1 =>
    if lo % Nat.pow 2 (k + 1) = 0 ∧ lo + Nat.pow 2 (k + 1) ≤ hi + 1 then k + 1
    else alignedExponent lo hi k

theorem alignedExponent_le (lo hi k : Nat) : alignedExponent lo hi k ≤ k := by
  induction k with
  | zero => exact Nat.le_refl _
  | succ k ih =>
    unfold alignedExponent
    split <;> omega

/-- Aligned blocks from `lo` up to `hi`, each the largest that fits at its place. -/
def blocks (family : Family) (lo hi : Nat) (h : hi ≤ family.top) : List Network :=
  if hlo : lo ≤ hi then
    let k := alignedExponent lo hi family.width
    ⟨⟨family, lo, Nat.le_trans hlo h⟩, family.width - k, Nat.sub_le _ _⟩ ::
      blocks family (lo + Nat.pow 2 k) hi h
  else []
termination_by hi + 1 - lo
decreasing_by
  have : 0 < Nat.pow 2 (alignedExponent lo hi family.width) := Nat.two_pow_pos _
  omega

/-- The networks that are written for a range of addresses of one family. -/
def cover (family : Family) (r : Range family.top) : List Network :=
  blocks family r.lo r.hi r.hi_le_top

end Network

end Perimeter
