import Perimeter.Proofs.Json.RoundTrip

/-!
Forms in which a type is written as JSON and read back. A codec is a way to write values
and a way to read them that gets each of them back, and what it writes is plain, so it is
also read back from text. Lists and optional values have codecs when what is in them has
one, and a record has one when each of its fields does.
-/

namespace Perimeter.Json

/-- Every value is written as plain JSON, from which it is read back. -/
structure Codec {α : Type} (write : α → Json) (read : Decoder α) : Prop where
  plain : ∀ a, Plain (write a)
  read_write : ∀ a, read (write a) = some a

@[simp]
theorem Slot.required_present {α : Type} (read : Decoder α) (v : Json) :
    required read (.present v) = read v := rfl

@[simp]
theorem Slot.withDefault_present {α : Type} (read : Decoder α) (default : α) (v : Json) :
    withDefault read default (.present v) = read v := rfl

@[simp]
theorem Slot.optional_present {α : Type} (read : Decoder α) (v : Json) :
    optional read (.present v) = nullable? read v := rfl

/-- The case of a record with one field is its name, and its content what is written there. -/
theorem case?_record (name : String) (v : Json) :
    case? (record [(name, v)]) = some (name, some v) := by
  have hcase : case? (record [(name, v)]) = (unescape? (escape name)).map (·, some v) := rfl
  rw [hcase, unescape?_escape, Option.map_some]

theorem nat?_ofNat (n : Nat) : nat? (ofNat n) = some n :=
  Text.readNat?_toDigits (by decide) (by decide) n

namespace Codec

variable {α : Type} {write : α → Json} {read : Decoder α}

theorem text : Codec ofText text? := ⟨.text, text?_ofText⟩

theorem bool : Codec .bool bool? := ⟨.bool, fun _ => rfl⟩

theorem uint16 : Codec (fun n => ofNat n.toNat) uint16? where
  plain n := .number n.toNat
  read_write n := by
    rw [uint16?, nat?_ofNat, Option.bind_eq_bind, Option.bind_some, if_pos n.toNat_lt]
    simp

theorem uint32 : Codec (fun n => ofNat n.toNat) uint32? where
  plain n := .number n.toNat
  read_write n := by
    rw [uint32?, nat?_ofNat, Option.bind_eq_bind, Option.bind_some, if_pos n.toNat_lt]
    simp

/-- A type with a text form is written as that text. -/
theorem parsed {toText : α → String} {ofText? : String → Option α}
    (h : ∀ a, ofText? (toText a) = some a) :
    Codec (fun a => ofText (toText a)) (parsed? ofText?) where
  plain a := .text (toText a)
  read_write a := by rw [parsed?_ofText, h]

theorem list (h : Codec write read) : Codec (ofList write) (list? read) where
  plain _ := .list <| List.forall_mem_map.mpr fun a _ => h.plain a
  read_write := mapM_map_eq_some h.read_write

/-- Null is free to stand for nothing when it is not how a value is written. -/
theorem nullable (h : Codec write read) (hnull : read .null = none) :
    Codec (ofOption write) (nullable? read) where
  plain o := by
    cases o with
    | none => exact .null
    | some a => exact h.plain a
  read_write o := by
    cases o with
    | none => rfl
    | some a =>
      have hread := h.read_write a
      unfold ofOption nullable?
      dsimp only
      split
      · rename_i hwritten
        rw [hwritten, hnull] at hread
        cases hread
      · rw [hread, Option.map_some]

/-- A record is read from what it says of its fields. Their names are distinct, so it says of
each of them what is written. -/
theorem record {names : List String} {fields : α → List (String × Json)}
    {build : List Slot → Option α} (hnames : names.Nodup)
    (hfields : ∀ a, (fields a).map (·.1) = names) (hplain : ∀ a, ∀ f ∈ fields a, Plain f.2)
    (hbuild : ∀ a, build ((fields a).map fun f => .present f.2) = some a) :
    Codec (fun a => Json.record (fields a)) (fun v => (slots? names v).bind build) where
  plain a := .record (hplain a)
  read_write a := by
    have hslots : slots? names (Json.record (fields a)) =
        some ((fields a).map fun f => .present f.2) := by
      rw [← hfields a]
      exact slots?_record (hfields a ▸ hnames)
    rw [hslots, Option.bind_some, hbuild]

/-- What is written in a codec is read back from its text. -/
theorem read?_compactText (h : Codec write read) (a : α) :
    (read? (write a).compactText).bind read = some a := by
  rw [(h.plain a).read?_compactText, Option.bind_some, h.read_write]

end Codec

end Perimeter.Json
