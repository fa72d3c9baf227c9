import Perimeter.Address.Text
import Perimeter.Interval.Range

/-!
Networks: an address together with a prefix length. The address keeps its host
bits; the block of addresses that share the prefix is what a network covers.
-/

namespace Perimeter

/-- An address with a prefix length. Host bits beyond the prefix are kept. -/
structure Network where
  address : Address
  length : Nat
  length_le_width : length ≤ address.family.width
deriving DecidableEq

namespace Network

/-- The number of addresses that share the prefix. -/
def blockSize (n : Network) : Nat := Nat.pow 2 (n.address.family.width - n.length)

theorem blockSize_pos (n : Network) : 0 < n.blockSize := Nat.two_pow_pos _

/-- The first address of the block as a number. -/
def first (n : Network) : Nat := n.address.value / n.blockSize * n.blockSize

/-- The last address of the block as a number. -/
def last (n : Network) : Nat := n.first + (n.blockSize - 1)

theorem first_le_last (n : Network) : n.first ≤ n.last := Nat.le_add_right _ _

/-- A block ends within its family, because its size divides the size of the family. -/
theorem last_le_top (n : Network) : n.last ≤ n.address.family.top := by
  have hvalue := n.address.value_le_top
  have htop := n.address.family.top_add_one
  have hsplit : Nat.pow 2 n.address.family.width = Nat.pow 2 n.length * n.blockSize := by
    rw [blockSize, Nat.pow_eq, Nat.pow_eq, Nat.pow_eq, ← Nat.pow_add, Nat.add_sub_cancel' n.length_le_width]
  have hdiv : n.address.value / n.blockSize < Nat.pow 2 n.length :=
    (Nat.div_lt_iff_lt_mul n.blockSize_pos).2 (by rw [← hsplit]; omega)
  have hmul : (n.address.value / n.blockSize + 1) * n.blockSize ≤ Nat.pow 2 n.length * n.blockSize :=
    Nat.mul_le_mul_right _ hdiv
  have hpos := n.blockSize_pos
  rw [Nat.add_mul, Nat.one_mul, ← hsplit, ← htop] at hmul
  simp only [last, first]
  omega

/-- The block of addresses that share the prefix. -/
def range (n : Network) : Range n.address.family.top :=
  ⟨n.first, n.last, n.first_le_last, n.last_le_top⟩

/-- The same network with its host bits cleared. -/
def masked (n : Network) : Network where
  address := ⟨n.address.family, n.first, Nat.le_trans n.first_le_last n.last_le_top⟩
  length := n.length
  length_le_width := n.length_le_width

/-- Whether an address of the same family lies in the block. -/
def contains (n : Network) (a : Address) : Bool :=
  n.address.family == a.family && n.first ≤ a.value && a.value ≤ n.last

/-- A prefix as long as the address leaves one address in the block. -/
def isHost (n : Network) : Bool := n.length == n.address.family.width

/-- Reads a prefix length of at most as many digits as the longest one has. -/
def readLength? (family : Family) (cs : List Char) : Option Nat :=
  let digits := match family with
    | .v4 => 2
    | .v6 => 3
  if digits < cs.length then none else Text.readNat? 10 cs

/-- The network a text writes: an address, a slash and a prefix length. -/
def ofText? (s : String) : Option Network := do
  let [address, length] := s.toList.splitOn '/' | none
  let address ← Address.Grammar.inNetwork.read? address
  let length ← readLength? address.family length
  if h : length ≤ address.family.width then some ⟨address, length, h⟩ else none

def text (n : Network) : String :=
  String.ofList (n.address.chars ++ '/' :: Nat.toDigits 10 n.length)

end Network

end Perimeter
