import Mathlib.Data.List.Basic
import Perimeter.Counting
import Perimeter.Proofs.Checked
import Perimeter.Proofs.Text.Digits
import Perimeter.Service.Protocol
import Perimeter.Uuid

/-!
The written forms of identifiers and protocols read back. The hyphens in an identifier
stand between its digits and are none of them. A protocol without a name is written in
digits, which no name is.
-/

namespace Perimeter

namespace Uuid

theorem digit?_digitChar (d : Fin 16) : digit? (Nat.digitChar d.val) = some d := by
  rw [digit?, Text.digitValue?_digitChar (Nat.le_refl 16) d.isLt]
  simp

theorem ofDigits?_digitChars (u : Uuid) :
    ofDigits? (u.digits.map fun d => Nat.digitChar d.val) = some u := by
  rw [ofDigits?, mapM_map_eq_some digit?_digitChar]
  simp [u.length_eq]

/-- Groups of the right lengths in all have just these lengths. -/
theorem map_length_splitGroups {lengths : List Nat} {cs : List Char}
    (h : cs.length = sumOver id lengths) : (splitGroups lengths cs).map List.length = lengths := by
  induction lengths generalizing cs with
  | nil => rfl
  | cons n lengths ih =>
    rw [sumOver, id_eq] at h
    have hrest : (cs.drop n).length = sumOver id lengths := by
      rw [List.length_drop]
      omega
    have hfirst : (cs.take n).length = n := by
      rw [List.length_take]
      omega
    rw [splitGroups, List.map_cons, hfirst, ih hrest]

/-- No digit is lost between groups. -/
theorem flatten_splitGroups {lengths : List Nat} {cs : List Char}
    (h : cs.length = sumOver id lengths) : (splitGroups lengths cs).flatten = cs := by
  induction lengths generalizing cs with
  | nil => exact (List.eq_nil_of_length_eq_zero h).symm
  | cons n lengths ih =>
    rw [sumOver, id_eq] at h
    have hrest : (cs.drop n).length = sumOver id lengths := by
      rw [List.length_drop]
      omega
    rw [splitGroups, List.flatten_cons, ih hrest, List.take_append_drop]

/-- The written form of an identifier reads back. -/
theorem ofText?_text (u : Uuid) : ofText? u.text = some u := by
  generalize hcs : (u.digits.map fun d => Nat.digitChar d.val) = cs
  have hcount : cs.length = 32 := by rw [← hcs, List.length_map, u.length_eq]
  have hlengths : (splitGroups groupLengths cs).map List.length = groupLengths :=
    map_length_splitGroups hcount
  have hflatten : (splitGroups groupLengths cs).flatten = cs := flatten_splitGroups hcount
  have hhyphen : ∀ group ∈ splitGroups groupLengths cs, '-' ∉ group := by
    intro group hgroup hmem
    have hdigit : ∀ d : Fin 16, Nat.digitChar d.val ≠ '-' := by decide
    have hcs' : '-' ∈ cs := hflatten ▸ List.mem_flatten_of_mem hgroup hmem
    rw [← hcs] at hcs'
    obtain ⟨d, _, hd⟩ := List.mem_map.mp hcs'
    exact hdigit d hd
  have hsplit : (['-'].intercalate (splitGroups groupLengths cs)).splitOn '-' =
      splitGroups groupLengths cs :=
    List.splitOn_intercalate '-' hhyphen (by simp [groupLengths, splitGroups])
  have hwritten : (['-'].intercalate (splitGroups groupLengths cs)).length = 36 := by
    simp [splitGroups, groupLengths, List.intercalate_cons_cons, hcount]
  have hgroups : ofGroups? (['-'].intercalate (splitGroups groupLengths cs)) = some u := by
    rw [ofGroups?, hsplit, hflatten, if_pos hlengths, ← hcs, ofDigits?_digitChars]
  rw [ofText?, text, String.toList_ofList, hcs, if_neg (by rw [hwritten]; decide),
    if_pos hwritten, hgroups]

end Uuid

namespace Protocol

/-- Digits have no case. -/
theorem toLower_of_isDigit {c : Char} (h : c.isDigit = true) : c.toLower = c := by
  have hnot : ¬(c.val ≥ 'A'.val ∧ c.val ≤ 'Z'.val) := by
    have hnine : '9'.val.toNat = 57 := rfl
    have ha : 'A'.val.toNat = 65 := rfl
    simp only [Char.isDigit, Bool.and_eq_true, decide_eq_true_eq, ge_iff_le,
      UInt32.le_iff_toNat_le] at h ⊢
    omega
  unfold Char.toLower
  rw [dif_neg hnot]

/-- A protocol is written in lower case. -/
theorem toLower_text (p : Protocol) : p.text.toLower = p.text := by
  have hlower : ∀ s : String, s.toList.map Char.toLower = s.toList → s.toLower = s := by
    intro s hs
    have hmap : s.toLower = s.map Char.toLower := rfl
    rw [hmap, ← String.toList_inj, String.toList_map, hs]
  unfold text
  split_ifs
  · exact hlower _ (by decide)
  · exact hlower _ (by decide)
  · exact hlower _ (by decide)
  · exact hlower _ (by decide)
  · apply hlower
    rw [Text.toList_decimal]
    calc (Nat.toDigits 10 p.number.toNat).map Char.toLower
      _ = (Nat.toDigits 10 p.number.toNat).map id := List.map_congr_left fun c hc =>
          toLower_of_isDigit (Nat.isDigit_of_mem_toDigits (by decide) (by decide) hc)
      _ = Nat.toDigits 10 p.number.toNat := List.map_id _

/-- No protocol has the name that stands for every one. -/
theorem text_ne_any (p : Protocol) : p.text ≠ "any" := by
  have hdecimal : ∀ n, Text.decimal n ≠ "any" :=
    Text.decimal_ne (show 'a' ∈ "any".toList by decide) (by decide)
  unfold text
  split_ifs
  · decide
  · decide
  · decide
  · decide
  · exact hdecimal _

/-- The written form of a protocol reads back. -/
theorem ofText?_text (p : Protocol) : ofText? p.text = some p := by
  rw [ofText?, toLower_text]
  by_cases hicmp : p = icmp
  · subst hicmp
    rfl
  by_cases htcp : p = tcp
  · subst htcp
    rfl
  by_cases hudp : p = udp
  · subst hudp
    rfl
  by_cases hicmpv6 : p = icmpv6
  · subst hicmpv6
    rfl
  have htext : p.text = Text.decimal p.number.toNat := by
    simp [text, hicmp, htcp, hudp, hicmpv6]
  -- Every name has a letter in it that is no digit.
  have hname : ∀ s : String, 'i' ∈ s.toList ∨ 'p' ∈ s.toList → Text.decimal p.number.toNat ≠ s := by
    intro s hs
    rcases hs with hs | hs
    all_goals exact Text.decimal_ne hs (by decide) _
  rw [htext]
  simp only [hname "icmp" (by decide), hname "tcp" (by decide), hname "udp" (by decide),
    hname "icmpv6" (by decide), hname "ipv6-icmp" (by decide), if_false, or_self,
    Text.toList_decimal, Text.readUnsigned?_toDigits, Option.bind_some]
  rw [ofNat?, if_pos p.number.toNat_lt]
  simp

end Protocol

end Perimeter
