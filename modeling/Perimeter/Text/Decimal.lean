import Perimeter.Text.Numeral

/-!
Decimal fractions in text, and the two ends of the range of double-precision
numbers: which decimals round to zero and which exceed every finite number.
Both are decided in exact arithmetic.
-/

namespace Perimeter.Text

/-- One or more digits from the front, and what follows them. -/
def dropDigits? (cs : List Char) : Option (List Char) :=
  if (cs.head?.map Char.isDigit).getD false then some (cs.dropWhile Char.isDigit) else none

/-- What follows the integer part of a numeral: a lone zero, or digits that do
not begin with zero. -/
def dropInteger? : List Char → Option (List Char)
  | '0' :: rest => some rest
  | cs => dropDigits? cs

def dropFraction? : List Char → Option (List Char)
  | '.' :: rest => dropDigits? rest
  | cs => some cs

def dropExponent? : List Char → Option (List Char)
  | 'e' :: rest | 'E' :: rest =>
    match rest with
    | '+' :: digits | '-' :: digits => dropDigits? digits
    | digits => dropDigits? digits
  | cs => some cs

/-- Whether a word is an integer, a fraction and an exponent, of which only the
integer is required. -/
def isUnsignedNumeral (word : List Char) : Bool :=
  ((dropInteger? word).bind dropFraction?).bind dropExponent? == some []

/-- The number `significand * 10 ^ exponent`. -/
structure Decimal where
  significand : Nat
  exponent : Int
deriving DecidableEq

namespace Decimal

/-- Digits around at most one point, at least one in all. -/
def readSignificand? (cs : List Char) : Option Decimal :=
  let (whole, rest) := cs.span Char.isDigit
  match rest with
  | [] => (readNat? 10 whole).map (⟨·, 0⟩)
  | '.' :: fraction => (readNat? 10 (whole ++ fraction)).map (⟨·, -(fraction.length : Int)⟩)
  | _ => none

/-- Digits around at most one point, and perhaps a power of ten after the
letter `e`. -/
def read? (cs : List Char) : Option Decimal :=
  match cs.span fun c => c ≠ 'e' ∧ c ≠ 'E' with
  | (digits, []) => readSignificand? digits
  | (digits, _ :: power) => do
    let d ← readSignificand? digits
    let e ← readInteger? power
    return ⟨d.significand, d.exponent + e⟩

/-- Whether the nearest double-precision number is zero: at most half of the
smallest positive one, `2 ^ (-1074)`. The test by binary length comes first,
since a power of ten may be too long to compute. -/
def isNegligible (d : Decimal) : Bool :=
  match d.exponent with
  | .ofNat _ => d.significand == 0
  | .negSucc n =>
    d.significand == 0 || d.significand.log2 + 1076 ≤ 3 * (n + 1) ||
      decide (d.significand * Nat.pow 2 1075 ≤ Nat.pow 10 (n + 1))

/-- The least number that rounds to no finite double-precision number: halfway
between the greatest of them and the next power of two. -/
def limit : Nat := Nat.pow 2 1024 - Nat.pow 2 970

/-- Whether the number rounds to no finite double-precision number. The tests
by length come first, since a power of ten may be too long to compute. -/
def overflows (d : Decimal) : Bool :=
  match d.exponent with
  | .ofNat e => d.significand != 0 && (400 < e || decide (limit ≤ d.significand * Nat.pow 10 e))
  | .negSucc n =>
    !decide (d.significand.log2 + 1 < 3 * (n + 1) + 1023) &&
      decide (limit * Nat.pow 10 (n + 1) ≤ d.significand)

end Decimal

end Perimeter.Text
