/-!
Internet addresses of both families as numbers below the size of their family.
-/

namespace Perimeter

/-- The two address families. -/
inductive Family where
  | v4
  | v6
deriving DecidableEq

namespace Family

/-- The number of bits in an address. -/
def width : Family → Nat
  | v4 => 32
  | v6 => 128

/-- The greatest address as a number. -/
def top : Family → Nat
  | v4 => 4294967295
  | v6 => 340282366920938463463374607431768211455

theorem top_add_one (family : Family) : family.top + 1 = Nat.pow 2 family.width := by
  cases family <;> rfl

end Family

/-- An address: its family and its bits read as a number. -/
structure Address where
  family : Family
  value : Nat
  value_le_top : value ≤ family.top
deriving DecidableEq

namespace Address

/-- The address of a family with the given number, if the family goes that far. -/
def ofNat? (family : Family) (value : Nat) : Option Address :=
  if h : value ≤ family.top then some ⟨family, value, h⟩ else none

end Address

end Perimeter
