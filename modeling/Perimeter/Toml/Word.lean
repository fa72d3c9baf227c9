import Perimeter.Text.Decimal
import Perimeter.Toml.Marked

/-!
Bare words of the TOML format: truth values, numbers and moments. A word may
also spell parts of a key.
-/

namespace Perimeter.Toml

/-- Takes out underscores, each of which must stand between two digits. -/
def ungroupFrom? (base : Nat) (afterDigit : Bool) : List Char → Option (List Char)
  | [] => some []
  | c :: rest =>
    if c = '_' then
      if afterDigit && (rest.head?.bind (Text.digitValue? base)).isSome then
        ungroupFrom? base false rest
      else none
    else (ungroupFrom? base (Text.digitValue? base c).isSome rest).map (c :: ·)

def ungroup? (base : Nat) (cs : List Char) : Option (List Char) := ungroupFrom? base false cs

/-- A whole number, within the range of signed words of 64 bits. -/
def integer? (n : Int) : Option Setting :=
  if Text.isInt64 n then some (.integer n) else none

/-- A number in a base that its second letter names. -/
def ofDigits? (base : Nat) (digits : List Char) : Option Setting := do
  integer? (← Text.readNat? base (← ungroup? base digits))

/-- A number in base ten without its sign. A whole number has digits alone. -/
def ofNumeral? (negative : Bool) (written : List Char) : Option Setting := do
  let cs ← ungroup? 10 written
  if Text.isUnsignedNumeral cs then
    if cs.all Char.isDigit then
      let n ← Text.readNat? 10 cs
      integer? (if negative then -(n : Int) else n)
    else
      let d ← Text.Decimal.read? cs
      if d.overflows && !negative then none else some (.fraction d.isNegligible)
  else if cs = "inf".toList ∨ cs = "nan".toList then some (.fraction false)
  else none

/-- The value that a bare word writes. -/
def ofWord? (written : List Char) : Option Setting :=
  if written = "true".toList then some (.bool true)
  else if written = "false".toList then some (.bool false)
  else if isMoment .bare written then some (ofMoment written)
  else match written with
    | '0' :: 'x' :: digits => ofDigits? 16 digits
    | '0' :: 'o' :: digits => ofDigits? 8 digits
    | '0' :: 'b' :: digits => ofDigits? 2 digits
    | '+' :: rest => ofNumeral? false rest
    | '-' :: rest => ofNumeral? true rest
    | _ => ofNumeral? false written

/-- A part of a key, or a point between parts. -/
inductive KeyPiece where
  | part (name : String)
  | point
deriving DecidableEq

def isBareKeyChar (c : Char) : Bool := c.isAlphanum || c == '_' || c == '-'

/-- The pieces of a key that a word spells. -/
def keyPieces? (written : List Char) : Option (List KeyPiece) :=
  let names := written.splitOn '.'
  if names.all (·.all isBareKeyChar) then
    some <| (List.intercalate [.point] (names.map fun name => [.part (String.ofList name)])).filter
      (· ≠ .part "")
  else none

/-- The names that the pieces of a key spell: parts with one point between each
two. -/
def keyParts? : List KeyPiece → Option (List String)
  | [.part name] => some [name]
  | .part name :: .point :: rest => (keyParts? rest).map (name :: ·)
  | _ => none

/-- What is too deep: keys have fewer parts than this, and fewer lists and
inline tables stand within one another. -/
def depthLimit : Nat := 80

/-- The path that the pieces of a key spell. -/
def keyPath? (pieces : List KeyPiece) : Option (List String) :=
  (keyParts? pieces).filter (·.length < depthLimit)

end Perimeter.Toml
