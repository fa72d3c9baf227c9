/-!
Numbers in text: digits of any base up to sixteen, read from a run of
characters and written without leading zeros. What is written reads back.
-/

namespace Perimeter.Text

/-- The value of a digit in a base up to sixteen. Letters count in either case. -/
def digitValue? (base : Nat) (c : Char) : Option Nat :=
  let value? :=
    if '0' ≤ c ∧ c ≤ '9' then some (c.toNat - '0'.toNat)
    else if 'a' ≤ c ∧ c ≤ 'f' then some (c.toNat - 'a'.toNat + 10)
    else if 'A' ≤ c ∧ c ≤ 'F' then some (c.toNat - 'A'.toNat + 10)
    else none
  value?.filter (· < base)

/-- Continues a number with the digits that follow it. -/
def readDigits? (base : Nat) : Nat → List Char → Option Nat
  | value, [] => some value
  | value, c :: rest =>
    match digitValue? base c with
    | some d => readDigits? base (base * value + d) rest
    | none => none

/-- The number written by one or more digits and nothing else. -/
def readNat? (base : Nat) : List Char → Option Nat
  | [] => none
  | digits => readDigits? base 0 digits

/-- A number after at most one plus sign. -/
def readUnsigned? : List Char → Option Nat
  | '+' :: digits => readNat? 10 digits
  | digits => readNat? 10 digits

/-- A number after at most one sign. -/
def readInteger? : List Char → Option Int
  | '-' :: digits => (readNat? 10 digits).map fun n => -(n : Int)
  | cs => (readUnsigned? cs).map Int.ofNat

/-- Whether a number is that of a signed word of 64 bits. -/
def isInt64 (n : Int) : Bool := -9223372036854775808 ≤ n && n ≤ 9223372036854775807

/-- The number of a signed word of 64 bits. -/
def readInt64? (cs : List Char) : Option Int :=
  (readInteger? cs).filter isInt64

def decimal (n : Nat) : String := String.ofList (Nat.toDigits 10 n)

theorem digitValue?_digitChar {base : Nat} (hbase : base ≤ 16) {d : Nat} (hd : d < base) :
    digitValue? base d.digitChar = some d := by
  have table : ∀ d < 16, digitValue? 16 d.digitChar = some d := by decide
  have h := table d (by omega)
  simp only [digitValue?, Option.filter_eq_some_iff, decide_eq_true_eq] at h ⊢
  exact ⟨h.1, hd⟩

theorem readDigits?_append {base value : Nat} {cs ds : List Char} :
    readDigits? base value (cs ++ ds) =
      (readDigits? base value cs).bind (readDigits? base · ds) := by
  induction cs generalizing value with
  | nil => rfl
  | cons c rest ih =>
    simp only [List.cons_append, readDigits?]
    cases digitValue? base c <;> simp [ih]

/-- Digits written in a base read back in that base. -/
theorem readDigits?_toDigits {base : Nat} (hlow : 1 < base) (hhigh : base ≤ 16) (n : Nat) :
    readDigits? base 0 (Nat.toDigits base n) = some n := by
  induction n using Nat.strongRecOn with
  | ind n ih =>
    rw [Nat.toDigits_eq_if hlow]
    split
    · rename_i h
      simp [readDigits?, digitValue?_digitChar hhigh h]
    · rename_i h
      have hdiv := ih (n / base) (Nat.div_lt_self (by omega) hlow)
      have hmod : n % base < base := Nat.mod_lt _ (by omega)
      rw [readDigits?_append, hdiv]
      simp [readDigits?, digitValue?_digitChar hhigh hmod, Nat.div_add_mod]

theorem readNat?_toDigits {base : Nat} (hlow : 1 < base) (hhigh : base ≤ 16) (n : Nat) :
    readNat? base (Nat.toDigits base n) = some n := by
  unfold readNat?
  split
  · exact absurd (by assumption) Nat.toDigits_ne_nil
  · exact readDigits?_toDigits hlow hhigh n

theorem toList_decimal (n : Nat) : (decimal n).toList = Nat.toDigits 10 n := by
  simp [decimal]

end Perimeter.Text
