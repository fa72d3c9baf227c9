import Perimeter.Text.Numeral

/-!
What digits consist of. Whatever is read as a number is made of digits only, so a text
with any other character in it writes none, and the digits of a number can be told from
the marks around them. Only zero is written with a zero in front.
-/

namespace Perimeter.Text

variable {base n : Nat} {c : Char} {cs : List Char}

theorem isSome_of_readDigits? {value : Nat} (h : readDigits? base value cs = some n) :
    ∀ c ∈ cs, (digitValue? base c).isSome = true := by
  induction cs generalizing value with
  | nil => simp
  | cons first rest ih =>
    unfold readDigits? at h
    cases hfirst : digitValue? base first with
    | none =>
      rw [hfirst] at h
      cases h
    | some d =>
      rw [hfirst] at h
      intro c hc
      rcases List.mem_cons.mp hc with rfl | hrest
      · rw [hfirst]
        rfl
      · exact ih h c hrest

/-- A text writes no number when something in it is no digit. -/
theorem readNat?_eq_none (hc : c ∈ cs) (h : digitValue? base c = none) :
    readNat? base cs = none := by
  cases hread : readNat? base cs with
  | none => rfl
  | some n =>
    cases cs with
    | nil => cases hc
    | cons first rest =>
      have hsome := isSome_of_readDigits? hread c hc
      rw [h] at hsome
      cases hsome

/-- Nothing but digits is in the digits of a number. -/
theorem not_mem_toDigits (hlow : 1 < base) (hhigh : base ≤ 16) (h : digitValue? base c = none)
    (n : Nat) : c ∉ Nat.toDigits base n := by
  intro hc
  have hsome := isSome_of_readDigits? (readDigits?_toDigits hlow hhigh n) c hc
  rw [h] at hsome
  cases hsome

/-- A number is not written as a text with anything but digits in it. -/
theorem toDigits_ne (hlow : 1 < base) (hhigh : base ≤ 16) (hc : c ∈ cs)
    (h : digitValue? base c = none) (n : Nat) : Nat.toDigits base n ≠ cs := by
  rintro rfl
  exact not_mem_toDigits hlow hhigh h n hc

theorem decimal_ne {s : String} (hc : c ∈ s.toList) (h : digitValue? 10 c = none) (n : Nat) :
    decimal n ≠ s := by
  rintro rfl
  rw [toList_decimal] at hc
  exact not_mem_toDigits (by decide) (by decide) h n hc

/-- A number written without a sign reads back where a sign may stand. -/
theorem readUnsigned?_toDigits (n : Nat) : readUnsigned? (Nat.toDigits 10 n) = some n := by
  unfold readUnsigned?
  split
  · rename_i digits hplus
    exact absurd hplus (toDigits_ne (by decide) (by decide) List.mem_cons_self (by decide) n)
  · exact readNat?_toDigits (by decide) (by decide) n

/-- The digits of a number begin with zero for zero only. The induction is on the number,
since all digits but the last are those of its quotient. -/
theorem eq_zero_of_head?_toDigits (hlow : 1 < base)
    (h : (Nat.toDigits base n).head? = some '0') : n = 0 := by
  induction n using Nat.strongRecOn with
  | ind n ih =>
    rw [Nat.toDigits_eq_if hlow] at h
    split at h
    · simpa using h
    · rename_i hlarge
      have hhead : (Nat.toDigits base (n / base)).head? = some '0' := by
        obtain ⟨first, rest, hdigits⟩ := List.exists_cons_of_ne_nil
          (Nat.toDigits_ne_nil (n := n / base) (b := base))
        rw [hdigits] at h ⊢
        exact h
      have hquotient := ih (n / base) (Nat.div_lt_self (by omega) hlow) hhead
      rcases (Nat.div_eq_zero_iff).mp hquotient with hbase | hsmall
      · omega
      · exact absurd hsmall hlarge

end Perimeter.Text
