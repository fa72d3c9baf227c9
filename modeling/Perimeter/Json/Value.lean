import Perimeter.Text.Numeral

/-!
Values of the JSON format. Numbers and strings keep their written form, so a
value can be passed over without asking what its parts mean; the text of a
string and the number of a numeral are read when they are wanted.
-/

namespace Perimeter

/-- A JSON value. Strings and keys hold what is written between their quotes. -/
inductive Json where
  | null
  | bool (b : Bool)
  | number (written : List Char)
  | string (written : List Char)
  | array (items : List Json)
  | object (members : List (List Char × Json))

namespace Json

/-- A character of a text, or half of a character that takes two escapes. -/
inductive Unit where
  | char (c : Char)
  | half (n : Nat)
deriving DecidableEq

def isHighHalf (n : Nat) : Bool := 0xD800 ≤ n && n < 0xDC00

def isLowHalf (n : Nat) : Bool := 0xDC00 ≤ n && n < 0xE000

/-- The unit that four hexadecimal digits stand for. -/
def Unit.ofCode (n : Nat) : Unit :=
  if isHighHalf n || isLowHalf n then .half n else .char (Char.ofNat n)

/-- The units of a written string. -/
def units? : List Char → Option (List Unit)
  | [] => some []
  | '\\' :: 'u' :: a :: b :: c :: d :: rest => do
    let n ← Text.readNat? 16 [a, b, c, d]
    (units? rest).map (Unit.ofCode n :: ·)
  | '\\' :: '"' :: rest => (units? rest).map (.char '"' :: ·)
  | '\\' :: '\\' :: rest => (units? rest).map (.char '\\' :: ·)
  | '\\' :: '/' :: rest => (units? rest).map (.char '/' :: ·)
  | '\\' :: 'b' :: rest => (units? rest).map (.char '\x08' :: ·)
  | '\\' :: 'f' :: rest => (units? rest).map (.char '\x0c' :: ·)
  | '\\' :: 'n' :: rest => (units? rest).map (.char '\n' :: ·)
  | '\\' :: 'r' :: rest => (units? rest).map (.char '\r' :: ·)
  | '\\' :: 't' :: rest => (units? rest).map (.char '\t' :: ·)
  | '\\' :: _ => none
  | c :: rest => (units? rest).map (.char c :: ·)

/-- Joins the halves of characters. A half without its partner spells no text. -/
def joinHalves : List Unit → Option (List Char)
  | [] => some []
  | .char c :: rest => (joinHalves rest).map (c :: ·)
  | .half high :: .half low :: rest =>
    if isHighHalf high && isLowHalf low then
      (joinHalves rest).map
        (Char.ofNat (0x10000 + (high - 0xD800) * 0x400 + (low - 0xDC00)) :: ·)
    else none
  | .half _ :: _ => none

/-- The text that a written string stands for. -/
def unescape? (written : List Char) : Option String :=
  ((units? written).bind joinHalves).map String.ofList

/-- One character in written form: quotes, backslashes and control characters
are escaped, the common ones by a letter, and all else stands for itself. -/
def escapeChar (c : Char) : List Char :=
  if c = '"' then ['\\', '"']
  else if c = '\\' then ['\\', '\\']
  else if c = '\x08' then ['\\', 'b']
  else if c = '\x0c' then ['\\', 'f']
  else if c = '\n' then ['\\', 'n']
  else if c = '\r' then ['\\', 'r']
  else if c = '\t' then ['\\', 't']
  else if c.toNat < 32 then
    ['\\', 'u', '0', '0', Nat.digitChar (c.toNat / 16), Nat.digitChar (c.toNat % 16)]
  else [c]

/-- The written form of a text. -/
def escape (s : String) : List Char := s.toList.flatMap escapeChar

def ofText (s : String) : Json := .string (escape s)

def ofNat (n : Nat) : Json := .number (Nat.toDigits 10 n)

/-- A text, or null. -/
def ofOption {α : Type} (f : α → Json) : Option α → Json
  | some a => f a
  | none => .null

def ofList {α : Type} (f : α → Json) (as : List α) : Json := .array (as.map f)

/-- A record with fields in the given order. -/
def record (fields : List (String × Json)) : Json :=
  .object (fields.map fun (name, v) => (escape name, v))

end Json

end Perimeter
