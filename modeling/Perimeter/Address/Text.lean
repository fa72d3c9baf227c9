import Perimeter.Address.Basic
import Perimeter.Text.Numeral

/-!
The text of addresses. Two grammars are in use: a bare address forbids leading
zeros in dotted octets and lets a double colon stand for at least one group,
while the address part of a network admits padded octets and an empty gap.
Addresses of version six are written in lower case with the first longest run
of two or more zero groups left out; an address that embeds one of version four
keeps its dotted form.
-/

namespace Perimeter

namespace Address

/-- The points on which readers of addresses differ. -/
structure Grammar where
  /-- Dotted octets may have leading zeros. -/
  paddedOctets : Bool
  /-- A double colon may stand for no group at all. -/
  emptyGap : Bool

namespace Grammar

/-- The grammar of an address that stands alone. -/
def bare : Grammar := ⟨false, false⟩

/-- The grammar of the address part of a network. -/
def inNetwork : Grammar := ⟨true, true⟩

/-- One to three decimal digits that write a number below 256. -/
def readOctet? (g : Grammar) (cs : List Char) : Option Nat :=
  if 3 < cs.length || (!g.paddedOctets && 1 < cs.length && cs.head? == some '0') then none
  else (Text.readNat? 10 cs).filter (· < 256)

/-- Four octets between dots. -/
def readDotted? (g : Grammar) (cs : List Char) : Option Nat :=
  match (cs.splitOn '.').mapM g.readOctet? with
  | some [a, b, c, d] => some (((a * 256 + b) * 256 + c) * 256 + d)
  | _ => none

/-- One to four hexadecimal digits. -/
def readGroup? (cs : List Char) : Option Nat :=
  if 4 < cs.length then none else Text.readNat? 16 cs

/-- The groups that colon-separated fields write. The last field may be dotted
and then gives two groups, where `dotted` allows it. -/
def readFields? (g : Grammar) (dotted : Bool) : List (List Char) → Option (List Nat)
  | [] => some []
  | [field] =>
    match readGroup? field with
    | some n => some [n]
    | none =>
      if dotted then (g.readDotted? field).map fun n => [n / 65536, n % 65536] else none
  | field :: rest => do
    let n ← readGroup? field
    let ns ← g.readFields? dotted rest
    some (n :: ns)

/-- The groups of one side of a double colon, which may be bare of any. -/
def readGroups? (g : Grammar) (dotted : Bool) (cs : List Char) : Option (List Nat) :=
  if cs.isEmpty then some [] else g.readFields? dotted (cs.splitOn ':')

/-- The text before and after the first double colon. -/
def splitGap? : List Char → Option (List Char × List Char)
  | ':' :: ':' :: rest => some ([], rest)
  | c :: rest => (splitGap? rest).map fun (before, after) => (c :: before, after)
  | [] => none

/-- Eight groups of sixteen bits as one number. -/
def ofGroups (groups : List Nat) : Nat := groups.foldl (fun value n => value * 65536 + n) 0

/-- Eight groups, or fewer around one double colon that stands for the rest. -/
def readColons? (g : Grammar) (cs : List Char) : Option Nat :=
  match splitGap? cs with
  | none => do
    let groups ← g.readGroups? true cs
    if groups.length = 8 then some (ofGroups groups) else none
  | some (before, after) => do
    let front ← g.readGroups? false before
    let back ← g.readGroups? true after
    let written := front.length + back.length
    if front.length < 8 ∧ written ≤ (if g.emptyGap then 8 else 7) then
      some (ofGroups (front ++ List.replicate (8 - written) 0 ++ back))
    else none

def read? (g : Grammar) (cs : List Char) : Option Address :=
  match g.readDotted? cs with
  | some n => Address.ofNat? .v4 n
  | none => (g.readColons? cs).bind (Address.ofNat? .v6)

end Grammar

/-- The address a text writes by itself. -/
def ofText? (s : String) : Option Address := Grammar.bare.read? s.toList

/-- A number below 2 ^ 32 as four octets. -/
def dotted (n : Nat) : List Char :=
  [n / 16777216, n / 65536 % 256, n / 256 % 256, n % 256].map (Nat.toDigits 10)
    |> List.intercalate ['.']

/-- The eight groups of sixteen bits, highest first. -/
def groups (n : Nat) : List Nat :=
  (List.range 8).map fun i => (n >>> (16 * (7 - i))) % 65536

/-- The start and the length of the first longest run of zero groups. -/
def longestZeroRun (gs : List Nat) : Nat × Nat :=
  (List.range gs.length).foldl (fun best i =>
    let length := ((gs.drop i).takeWhile (· == 0)).length
    if best.2 < length then (i, length) else best) (0, 0)

def colons (gs : List Nat) : List Char :=
  (gs.map (Nat.toDigits 16)) |> List.intercalate [':']

/-- Groups in lower case, the longest run of zeros left out if it is longer than one. -/
def compressed (gs : List Nat) : List Char :=
  let (start, length) := longestZeroRun gs
  if 1 < length then
    colons (gs.take start) ++ [':', ':'] ++ colons (gs.drop (start + length))
  else colons gs

/-- The characters of an address in its one written form. -/
def chars (a : Address) : List Char :=
  match a.family with
  | .v4 => dotted a.value
  | .v6 =>
    if a.value / 4294967296 = 65535 then "::ffff:".toList ++ dotted (a.value % 4294967296)
    else compressed (groups a.value)

def text (a : Address) : String := String.ofList a.chars

end Address

end Perimeter
