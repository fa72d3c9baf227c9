import Perimeter.Text.Numeral

/-!
Universally unique identifiers: thirty-two hexadecimal digits. They are read
with or without hyphens, in braces, or as a resource name, and written with
hyphens in lower case.
-/

namespace Perimeter

/-- An identifier of 128 bits, by its hexadecimal digits. -/
structure Uuid where
  digits : List (Fin 16)
  length_eq : digits.length = 32
deriving DecidableEq

namespace Uuid

def digit? (c : Char) : Option (Fin 16) := do
  let n ← Text.digitValue? 16 c
  if h : n < 16 then some ⟨n, h⟩ else none

/-- Exactly thirty-two digits. -/
def ofDigits? (cs : List Char) : Option Uuid := do
  let digits ← cs.mapM digit?
  if h : digits.length = 32 then some ⟨digits, h⟩ else none

/-- The lengths of the groups between hyphens. -/
def groupLengths : List Nat := [8, 4, 4, 4, 12]

/-- Five groups of digits between hyphens. -/
def ofGroups? (cs : List Char) : Option Uuid :=
  let groups := cs.splitOn '-'
  if groups.map List.length = groupLengths then ofDigits? groups.flatten else none

def ofText? (s : String) : Option Uuid :=
  let cs := s.toList
  if cs.length = 32 then ofDigits? cs
  else if cs.length = 36 then ofGroups? cs
  else if cs.length = 38 ∧ cs.head? = some '\x7b' ∧ cs.getLast? = some '\x7d' then
    ofGroups? (cs.drop 1).dropLast
  else if cs.length = 45 ∧ (cs.take 9).map Char.toLower = "urn:uuid:".toList then ofGroups? (cs.drop 9)
  else none

/-- The digits of a list of group lengths, in order. -/
def splitGroups : List Nat → List Char → List (List Char)
  | [], _ => []
  | n :: lengths, cs => cs.take n :: splitGroups lengths (cs.drop n)

def text (u : Uuid) : String :=
  String.ofList <| List.intercalate ['-'] <|
    splitGroups groupLengths (u.digits.map fun d => Nat.digitChar d.val)

/-- The digits of an identifier of version 4, made from random numbers: the digit
of the version is fixed, and so are two bits of the digit of the variant. -/
def randomDigits (random : Nat → Nat) : List Char :=
  (List.range 32).map fun i =>
    Nat.digitChar (if i = 12 then 4 else if i = 16 then 8 + random i % 4 else random i % 16)

end Uuid

end Perimeter
