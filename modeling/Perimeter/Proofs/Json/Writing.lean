import Mathlib.Data.List.Basic
import Perimeter.Json.Decoding
import Perimeter.Proofs.Checked

/-!
What is written as JSON reads back. Escapes lose no character of a text, and a
record gives each of its fields the value that was written for it.
-/

namespace Perimeter.Json

/-- Below the blank, two hexadecimal digits spell the code of a character. -/
theorem readNat?_code {c : Char} (h : c.toNat < 32) :
    Text.readNat? 16 ['0', '0', Nat.digitChar (c.toNat / 16), Nat.digitChar (c.toNat % 16)] =
      some c.toNat := by
  have hzero : Text.digitValue? 16 '0' = some 0 := by decide
  have hhigh : Text.digitValue? 16 (Nat.digitChar (c.toNat / 16)) = some (c.toNat / 16) :=
    Text.digitValue?_digitChar (by decide) (by omega)
  have hlow : Text.digitValue? 16 (Nat.digitChar (c.toNat % 16)) = some (c.toNat % 16) :=
    Text.digitValue?_digitChar (by decide) (by omega)
  simp [Text.readNat?, Text.readDigits?, hzero, hhigh, hlow, Nat.div_add_mod]

/-- A character without halves stands for itself. -/
theorem Unit.ofCode_toNat {c : Char} (h : c.toNat < 32) : Unit.ofCode c.toNat = .char c := by
  have hhigh : isHighHalf c.toNat = false := by
    simp [isHighHalf]
    omega
  have hlow : isLowHalf c.toNat = false := by
    simp [isLowHalf]
    omega
  simp [Unit.ofCode, hhigh, hlow, Char.ofNat_toNat]

/-- Each character is written so that it is read as itself. -/
theorem units?_escapeChar (c : Char) (rest : List Char) :
    units? (escapeChar c ++ rest) = (units? rest).map (.char c :: ·) := by
  unfold escapeChar
  split_ifs with hquote hslash hb hf hn hr ht hcontrol
  · subst hquote
    rfl
  · subst hslash
    rfl
  · subst hb
    rfl
  · subst hf
    rfl
  · subst hn
    rfl
  · subst hr
    rfl
  · subst ht
    rfl
  · have hread := readNat?_code hcontrol
    simp [units?, hread, Unit.ofCode_toNat hcontrol]
  · simp [units?, hslash]

theorem units?_escape (s : String) : units? (escape s) = some (s.toList.map .char) := by
  unfold escape
  induction s.toList with
  | nil => rfl
  | cons c rest ih =>
    rw [List.flatMap_cons, units?_escapeChar, ih]
    rfl

theorem joinHalves_chars (cs : List Char) : joinHalves (cs.map .char) = some cs := by
  induction cs with
  | nil => rfl
  | cons c rest ih =>
    rw [List.map_cons, joinHalves, ih]
    rfl

theorem unescape?_escape (s : String) : unescape? (escape s) = some s := by
  rw [unescape?, units?_escape, Option.bind_some, joinHalves_chars, Option.map_some,
    String.ofList_toList]

/-- The text of a written text. -/
theorem text?_ofText (s : String) : text? (ofText s) = some s := unescape?_escape s

theorem parsed?_ofText {α : Type} (ofText? : String → Option α) (s : String) :
    parsed? ofText? (ofText s) = ofText? s := by
  rw [parsed?, text?_ofText, Option.bind_some]

/-- What is parsed is parsed from some text. -/
theorem exists_of_parsed? {α : Type} {ofText? : String → Option α} {v : Json} {a : α}
    (h : parsed? ofText? v = some a) : ∃ s, ofText? s = some a := by
  obtain ⟨s, _, hs⟩ := Option.bind_eq_some_iff.mp h
  exact ⟨s, hs⟩

/-- Under distinct names, each member is found under its own. -/
theorem slotIn?_of_mem {members : List (String × Json)} (hnames : (members.map (·.1)).Nodup)
    {m : String × Json} (hm : m ∈ members) : slotIn? members m.1 = some (.present m.2) := by
  have hfilter : members.filter (·.1 == m.1) = [m] := filter_eq_singleton hnames hm
  rw [slotIn?, hfilter]

theorem textMembers?_record (fields : List (String × Json)) :
    textMembers? (fields.map fun (name, v) => (escape name, v)) = some fields := by
  apply mapM_map_eq_some
  rintro ⟨name, v⟩
  simp [unescape?_escape]

/-- A record says of its fields what is written. -/
theorem slots?_record {fields : List (String × Json)} (hnames : (fields.map (·.1)).Nodup) :
    slots? (fields.map (·.1)) (record fields) = some (fields.map fun f => .present f.2) := by
  have hslots : ∀ fs ⊆ fields, (fs.map (·.1)).mapM (slotIn? fields) =
      some (fs.map fun f => Slot.present f.2) := by
    intro fs hfs
    induction fs with
    | nil => rfl
    | cons f rest ih =>
      obtain ⟨hf, hrest⟩ := List.cons_subset.mp hfs
      rw [List.map_cons, List.mapM_cons, slotIn?_of_mem hnames hf, ih hrest]
      rfl
  have hmembers : slots? (fields.map (·.1)) (record fields) =
      (textMembers? (fields.map fun (name, v) => (escape name, v))).bind fun members =>
        (fields.map (·.1)).mapM (slotIn? members) := rfl
  rw [hmembers, textMembers?_record, Option.bind_some]
  exact hslots fields (List.Subset.refl fields)

end Perimeter.Json
