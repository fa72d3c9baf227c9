import Mathlib.Logic.Function.Basic
import Perimeter.Digest.Blake3
import Perimeter.Text.Numeral

/-!
What two texts with one written hash have in common. Each byte of a hash is written as two
digits, from which it can be told, and a text from the bytes that encode it. So texts
whose hashes are written alike are the same, or their bytes are a collision of the hash.
-/

namespace Perimeter.Blake3

/-- Two byte strings that are not the same and have the same hash. -/
def Collides (xs ys : List UInt8) : Prop := xs ≠ ys ∧ hashWords xs = hashWords ys

theorem digitChar_inj {a b : Nat} (ha : a < 16) (hb : b < 16)
    (h : Nat.digitChar a = Nat.digitChar b) : a = b := by
  have hvalue := congrArg (Text.digitValue? 16) h
  rw [Text.digitValue?_digitChar (Nat.le_refl 16) ha,
    Text.digitValue?_digitChar (Nat.le_refl 16) hb] at hvalue
  exact Option.some.inj hvalue

/-- A byte can be told from its two digits. -/
theorem mod_eq_of_digits {m n : Nat}
    (hhigh : Nat.digitChar (m % 256 / 16) = Nat.digitChar (n % 256 / 16))
    (hlow : Nat.digitChar (m % 16) = Nat.digitChar (n % 16)) : m % 256 = n % 256 := by
  have hdiv := digitChar_inj (by omega) (by omega) hhigh
  have hmod := digitChar_inj (by omega) (by omega) hlow
  omega

theorem wordHex_injective : Function.Injective wordHex := by
  intro w w' h
  simp only [wordHex, List.flatMap_cons, List.flatMap_nil, List.cons_append, List.nil_append,
    List.cons.injEq, UInt32.toNat_shiftRight, Nat.shiftRight_eq_div_pow, UInt32.reduceToNat,
    Nat.reduceMod, Nat.reducePow] at h
  obtain ⟨h₀, l₀, h₁, l₁, h₂, l₂, h₃, l₃, -⟩ := h
  have hfirst := mod_eq_of_digits h₀ l₀
  have hsecond := mod_eq_of_digits h₁ l₁
  have hthird := mod_eq_of_digits h₂ l₂
  have hfourth := mod_eq_of_digits h₃ l₃
  apply UInt32.toNat.inj
  have hw := w.toNat_lt
  have hw' := w'.toNat_lt
  omega

theorem flatMap_wordHex_injective : Function.Injective (List.flatMap wordHex) := by
  intro ws ws' h
  induction ws generalizing ws' with
  | nil =>
    cases ws' with
    | nil => rfl
    | cons w' rest' => cases h
  | cons w rest ih =>
    cases ws' with
    | nil => cases h
    | cons w' rest' =>
      obtain ⟨hword, hrest⟩ := List.append_inj h rfl
      rw [wordHex_injective hword, ih hrest]

/-- A hash can be told from its written form. -/
theorem hash_eq_iff {xs ys : List UInt8} : hash xs = hash ys ↔ hashWords xs = hashWords ys := by
  constructor
  · intro h
    exact Vector.toList_inj.mp (flatMap_wordHex_injective (String.ofList_inj.mp h))
  · intro h
    rw [hash, hash, h]

theorem toList_loop (bytes : ByteArray) (i : Nat) (before : List UInt8) :
    ByteArray.toList.loop bytes i before = before.reverse ++ bytes.data.toList.drop i := by
  fun_induction ByteArray.toList.loop bytes i before with
  | case1 i before hi ih =>
    have hi' : i < bytes.data.toList.length := by simpa using hi
    rw [ih, List.drop_eq_getElem_cons hi']
    simp [ByteArray.get!, hi]
  | case2 i before hi =>
    rw [List.drop_eq_nil_of_le (by simpa using Nat.le_of_not_lt hi), List.append_nil]

/-- A text can be told from the bytes that encode it. -/
theorem toList_toUTF8_inj {s t : String} : s.toUTF8.toList = t.toUTF8.toList ↔ s = t := by
  have hdata : ∀ bytes : ByteArray, bytes.toList = bytes.data.toList := by
    intro bytes
    rw [ByteArray.toList, toList_loop]
    rfl
  constructor
  · intro h
    rw [hdata, hdata, Array.toList_inj] at h
    exact String.toByteArray_inj.mp (ByteArray.ext h)
  · rintro rfl
    rfl

/-- Texts with one hash are the same text, or a collision has been found. -/
theorem hashText_eq_iff {s t : String} :
    hashText s = hashText t ↔ s = t ∨ Collides s.toUTF8.toList t.toUTF8.toList := by
  rw [hashText, hashText, hash_eq_iff, ← toList_toUTF8_inj, Collides]
  constructor
  · intro h
    by_cases hbytes : s.toUTF8.toList = t.toUTF8.toList
    · exact .inl hbytes
    · exact .inr ⟨hbytes, h⟩
  · rintro (h | ⟨_, h⟩)
    · rw [h]
    · exact h

end Perimeter.Blake3
