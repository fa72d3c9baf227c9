import Perimeter.Json.Value

/-!
Decoding of JSON values into domain types. A record may be written as an object
or as an array of its fields in declared order. In an object, fields of other
names are passed over and no declared field may repeat; an array may stop
early, but only before fields that have a default. Enumerations are written as
the name of the case, or as an object whose only key is that name.
-/

namespace Perimeter.Json

/-- A way to read a value of a type. -/
abbrev Decoder (α : Type) := Json → Option α

/-- What a record says of one of its declared fields. -/
inductive Slot where
  | present (v : Json)
  /-- An object has no such key. -/
  | absent
  /-- An array ends before the field. -/
  | cutOff

/-- The text of a string. -/
def text? : Decoder String
  | .string written => unescape? written
  | _ => none

def bool? : Decoder Bool
  | .bool b => some b
  | _ => none

/-- A numeral of digits alone. -/
def nat? : Decoder Nat
  | .number written => Text.readNat? 10 written
  | _ => none

def uint16? (v : Json) : Option UInt16 := do
  let n ← nat? v
  if n < UInt16.size then some n.toUInt16 else none

def uint32? (v : Json) : Option UInt32 := do
  let n ← nat? v
  if n < UInt32.size then some n.toUInt32 else none

def list? {α : Type} (item : Decoder α) : Decoder (List α)
  | .array items => items.mapM item
  | _ => none

/-- A value or null. -/
def nullable? {α : Type} (value : Decoder α) : Decoder (Option α)
  | .null => some none
  | v => (value v).map some

/-- A text in some grammar. -/
def parsed? {α : Type} (ofText? : String → Option α) (v : Json) : Option α :=
  (text? v).bind ofText?

/-- The members of an object under the texts of their keys. -/
def textMembers? (members : List (List Char × Json)) : Option (List (String × Json)) :=
  members.mapM fun (k, v) => (unescape? k).map (·, v)

/-- The only value under a name; nothing if the name repeats. -/
def slotIn? (members : List (String × Json)) (name : String) : Option Slot :=
  match members.filter (·.1 == name) with
  | [] => some .absent
  | [(_, v)] => some (.present v)
  | _ => none

/-- What a value says of each declared field of a record. -/
def slots? (names : List String) : Json → Option (List Slot)
  | .object members => do
    let members ← textMembers? members
    names.mapM (slotIn? members)
  | .array items =>
    if items.length ≤ names.length then
      some (items.map .present ++ List.replicate (names.length - items.length) .cutOff)
    else none
  | _ => none

namespace Slot

/-- A field that must be written. -/
def required {α : Type} (value : Decoder α) : Slot → Option α
  | present v => value v
  | _ => none

/-- A field that stands for a default when it is not written. -/
def withDefault {α : Type} (value : Decoder α) (default : α) : Slot → Option α
  | present v => value v
  | _ => some default

/-- A field that is null when an object lacks it; an array must write it. -/
def nullable {α : Type} (value : Decoder α) : Slot → Option (Option α)
  | present v => nullable? value v
  | absent => some none
  | cutOff => none

/-- A field that is null when it is not written. -/
def optional {α : Type} (value : Decoder α) : Slot → Option (Option α) :=
  withDefault (nullable? value) none

end Slot

/-- The name of a case and its content. A name that stands alone has none. -/
def case? : Json → Option (String × Option Json)
  | .string written => (unescape? written).map (·, none)
  | .object [(k, v)] => (unescape? k).map (·, some v)
  | _ => none

/-- A case without content: its name alone, or null under its name. -/
def isBare : Option Json → Bool
  | none => true
  | some .null => true
  | some _ => false

/-- One of several cases without content. -/
def oneOf? {α : Type} (cases : List (String × α)) (v : Json) : Option α := do
  let (name, content) ← case? v
  if isBare content then cases.lookup name else none

end Perimeter.Json
