import Perimeter.Text.Decimal

/-!
Double-precision numbers from the numerals of the JSON format. The digits that
fit a word of 64 bits make a whole number, and the rest only count as places;
the number is then multiplied or divided by a power of ten. The result may
differ in its last bits from the number nearest to the numeral, so whether it is
finite is decided in the same arithmetic.
-/

namespace Perimeter.Json

/-- Takes digits into a number as long as it fits a word of 64 bits. From the
first one that does not, they are left. -/
def takeDigits (n : Nat) : List Char → Nat × List Char
  | [] => (n, [])
  | c :: rest =>
    let next := 10 * n + (Text.digitValue? 10 c).getD 0
    if next < Nat.pow 2 64 then takeDigits next rest else (n, c :: rest)

/-- The digits of an unsigned numeral that fit, and the power of ten that they
are to be multiplied by. -/
def ofUnsigned? (cs : List Char) : Option Text.Decimal := do
  let (digits, power) := cs.span fun c => c ≠ 'e' ∧ c ≠ 'E'
  let (whole, point) := digits.span Char.isDigit
  let fraction := point.drop 1
  let (n, places) := takeDigits 0 whole
  let (n, ignored) := takeDigits n fraction
  let e ← match power with
    | [] => some 0
    | _ :: written => Text.readInteger? written
  return ⟨n, e + places.length + ignored.length - fraction.length⟩

/-- A power of ten, which is finite up to the exponent 308. -/
def tenTo (k : Nat) : Float := Float.ofScientific 1 false k

/-- A number times a power of ten, unless it is greater than every finite one.
Divisors beyond the finite numbers are applied in several steps. -/
def scale? (x : Float) (e : Int) : Option Float :=
  if 308 < e then if x == 0 then some x else none
  else if 0 ≤ e then
    let y := x * tenTo e.toNat
    if y.isInf then none else some y
  else if -308 ≤ e then some (x / tenTo e.natAbs)
  else if x == 0 then some x
  else scale? (x / tenTo 308) (e + 308)
termination_by e.natAbs
decreasing_by omega

/-- The number that a numeral writes, without its sign. -/
def magnitude? (written : List Char) : Option Float := do
  let d ← ofUnsigned? (if written.head? = some '-' then written.drop 1 else written)
  scale? (Float.ofNat d.significand) d.exponent

end Perimeter.Json
