import Mathlib.Data.List.TakeWhile
import Perimeter.Json.Printing
import Perimeter.Json.Reading
import Perimeter.Proofs.Json.Writing
import Perimeter.Proofs.Text.Digits

/-!
The compact text of a value reads back as the value. That holds of the values that
records are written as: their numbers are written in digits, and their texts and keys
are escaped. The text of such a value is cut into the tokens of the value, whatever
punctuation follows it, and the reader that takes these tokens is left with the value.
-/

namespace Perimeter.Json

/-- Values that documents are written as. -/
inductive Plain : Json → Prop where
  | null : Plain .null
  | bool (b : Bool) : Plain (.bool b)
  | number (n : Nat) : Plain (ofNat n)
  | text (s : String) : Plain (ofText s)
  | list {vs : List Json} (h : ∀ v ∈ vs, Plain v) : Plain (.array vs)
  | record {fields : List (String × Json)} (h : ∀ f ∈ fields, Plain f.2) : Plain (record fields)

mutual

/-- The tokens that a value is written in. -/
def tokens : Json → List Token
  | .null => [.word "null".toList]
  | .bool true => [.word "true".toList]
  | .bool false => [.word "false".toList]
  | .number written => [.word written]
  | .string written => [.string written]
  | .array [] => [.openBracket, .closeBracket]
  | .array (v :: vs) => .openBracket :: (tokens v ++ itemTokens vs)
  | .object [] => [.openBrace, .closeBrace]
  | .object ((k, v) :: ms) =>
    .openBrace :: .string k :: .colon :: (tokens v ++ memberTokens ms)

/-- The tokens of the items after the first. -/
def itemTokens : List Json → List Token
  | [] => [.closeBracket]
  | v :: vs => .comma :: (tokens v ++ itemTokens vs)

/-- The tokens of the members after the first. -/
def memberTokens : List (List Char × Json) → List Token
  | [] => [.closeBrace]
  | (k, v) :: ms => .comma :: .string k :: .colon :: (tokens v ++ memberTokens ms)

end

namespace Token

variable {c : Char} {w rest : List Char} {seen : List Char}

/-- No word goes on with the text: it ends, or punctuation comes next. -/
def Breaks (rest : List Char) : Prop := ∀ c ∈ rest.head?, (punctuation? c).isSome = true

/-- A character that can be part of a word. -/
def Bare (c : Char) : Prop := isBlank c = false ∧ c ≠ '"' ∧ punctuation? c = none

/-- Letters and digits are neither blanks nor punctuation. -/
theorem bare_of_isAlphanum (h : c.isAlphanum = true) : Bare c := by
  have hnot : ∀ d : Char, d.isAlphanum = false → c ≠ d := by
    rintro d hd rfl
    rw [hd] at h
    cases h
  refine ⟨?_, hnot _ rfl, ?_⟩
  · simp [isBlank, hnot]
  · unfold punctuation?
    split
    all_goals first | rfl | exact absurd rfl (hnot _ rfl)

theorem breaks_cons (h : (punctuation? c).isSome = true) (rest : List Char) :
    Breaks (c :: rest) := by
  intro d hd
  cases Option.mem_some_iff.mp hd
  exact h

theorem scanFrom_punctuation {t : Token} (h : punctuation? c = some t) (rest : List Char) :
    scanFrom .between (c :: rest) = (scanFrom .between rest).map (t :: ·) := by
  unfold punctuation? at h
  split at h
  all_goals cases h
  all_goals rfl

theorem scanFrom_inWord_breaks (h : Breaks rest) :
    scanFrom (.inWord seen) rest = (scanFrom .between rest).map (word seen.reverse :: ·) := by
  cases rest with
  | nil => rfl
  | cons c rest =>
    obtain ⟨t, ht⟩ := Option.isSome_iff_exists.mp (h c (Option.mem_some_self c))
    rw [scanFrom_punctuation ht, Option.map_map]
    unfold punctuation? at ht
    split at ht
    all_goals cases ht
    all_goals rfl

theorem scanFrom_inWord_append (hw : ∀ c ∈ w, Bare c) (seen rest : List Char) :
    scanFrom (.inWord seen) (w ++ rest) = scanFrom (.inWord (w.reverse ++ seen)) rest := by
  induction w generalizing seen with
  | nil => rfl
  | cons c w ih =>
    obtain ⟨⟨hblank, hquote, hpunctuation⟩, hw⟩ := List.forall_mem_cons.mp hw
    rw [List.cons_append, scanFrom, if_neg (by simp [hblank]), if_neg hquote, hpunctuation]
    dsimp only
    rw [ih hw, List.reverse_cons, List.append_assoc]
    rfl

/-- A word that ends with the text or before punctuation is one token. -/
theorem scanFrom_word (hne : w ≠ []) (hw : ∀ c ∈ w, Bare c) (h : Breaks rest) :
    scanFrom .between (w ++ rest) = (scanFrom .between rest).map (word w :: ·) := by
  obtain ⟨c, w, rfl⟩ := List.exists_cons_of_ne_nil hne
  obtain ⟨⟨hblank, hquote, hpunctuation⟩, hw⟩ := List.forall_mem_cons.mp hw
  rw [List.cons_append, scanFrom, if_neg (by simp [hblank]), if_neg hquote, hpunctuation]
  dsimp only
  rw [scanFrom_inWord_append hw, scanFrom_inWord_breaks h]
  simp

/-- The written form of a character stays inside a string. -/
theorem scanFrom_escapeChar (c : Char) (seen rest : List Char) :
    scanFrom (.inString seen) (escapeChar c ++ rest) =
      scanFrom (.inString ((escapeChar c).reverse ++ seen)) rest := by
  unfold escapeChar
  split_ifs with hquote hslash hb hf hn hr ht hcontrol
  · rfl
  · rfl
  · rfl
  · rfl
  · rfl
  · rfl
  · rfl
  · have hzero : Text.digitValue? 16 '0' = some 0 := by decide
    have hhigh : Text.digitValue? 16 (Nat.digitChar (c.toNat / 16)) = some (c.toNat / 16) :=
      Text.digitValue?_digitChar (by decide) (by omega)
    have hlow : Text.digitValue? 16 (Nat.digitChar (c.toNat % 16)) = some (c.toNat % 16) :=
      Text.digitValue?_digitChar (by decide) (by omega)
    simp [scanFrom, hzero, hhigh, hlow]
  · simp [scanFrom, hquote, hslash, hcontrol]

theorem scanFrom_escape (s : String) (seen rest : List Char) :
    scanFrom (.inString seen) (escape s ++ rest) =
      scanFrom (.inString ((escape s).reverse ++ seen)) rest := by
  unfold escape
  induction s.toList generalizing seen with
  | nil => rfl
  | cons c cs ih =>
    rw [List.flatMap_cons, List.append_assoc, scanFrom_escapeChar, ih, List.reverse_append,
      List.append_assoc]

/-- A text between quotes is one token. -/
theorem scanFrom_quoted (s : String) (rest : List Char) :
    scanFrom .between (quoted (escape s) ++ rest) =
      (scanFrom .between rest).map (string (escape s) :: ·) := by
  have hquoted : quoted (escape s) ++ rest = '"' :: (escape s ++ '"' :: rest) := by
    simp [quoted]
  have hopen : ∀ cs, scanFrom .between ('"' :: cs) = scanFrom (.inString []) cs := fun _ => rfl
  rw [hquoted, hopen, scanFrom_escape, List.append_nil, scanFrom, if_pos rfl, List.reverse_reverse]

/-- A value is cut into its tokens wherever no word goes on after it. -/
def Scans (v : Json) : Prop :=
  ∀ rest, Breaks rest →
    scanFrom .between (v.compact ++ rest) = (scanFrom .between rest).map (v.tokens ++ ·)

theorem scans_word {v : Json} {w : List Char} (hcompact : v.compact = w)
    (htokens : v.tokens = [.word w]) (hne : w ≠ []) (hw : ∀ c ∈ w, c.isAlphanum = true) :
    Scans v := by
  intro rest hbreaks
  rw [hcompact, htokens, scanFrom_word hne (fun c hc => bare_of_isAlphanum (hw c hc)) hbreaks]
  rfl

theorem breaks_compactItems (vs : List Json) (rest : List Char) :
    Breaks (compactItems vs ++ rest) := by
  cases vs with
  | nil => exact breaks_cons rfl rest
  | cons v vs => exact breaks_cons rfl _

theorem breaks_compactMembers (ms : List (List Char × Json)) (rest : List Char) :
    Breaks (compactMembers ms ++ rest) := by
  cases ms with
  | nil => exact breaks_cons rfl rest
  | cons m ms => exact breaks_cons rfl _

theorem scanFrom_items {vs : List Json} (h : ∀ v ∈ vs, Scans v) (rest : List Char) :
    scanFrom .between (compactItems vs ++ rest) =
      (scanFrom .between rest).map (itemTokens vs ++ ·) := by
  induction vs with
  | nil => exact scanFrom_punctuation rfl rest
  | cons v vs ih =>
    obtain ⟨hv, hvs⟩ := List.forall_mem_cons.mp h
    rw [compactItems, List.cons_append, scanFrom_punctuation rfl, List.append_assoc,
      hv _ (breaks_compactItems vs rest), ih hvs, Option.map_map, Option.map_map]
    simp [itemTokens, Function.comp_def]

theorem scanFrom_members {fields : List (String × Json)} (h : ∀ f ∈ fields, Scans f.2)
    (rest : List Char) :
    scanFrom .between (compactMembers (fields.map fun (name, v) => (escape name, v)) ++ rest) =
      (scanFrom .between rest).map
        (memberTokens (fields.map fun (name, v) => (escape name, v)) ++ ·) := by
  induction fields with
  | nil => exact scanFrom_punctuation rfl rest
  | cons f fields ih =>
    obtain ⟨hf, hfields⟩ := List.forall_mem_cons.mp h
    rw [List.map_cons, compactMembers, List.cons_append, scanFrom_punctuation rfl,
      List.append_assoc, scanFrom_quoted, List.cons_append, scanFrom_punctuation rfl,
      List.append_assoc, hf _ (breaks_compactMembers _ rest), ih hfields, Option.map_map,
      Option.map_map, Option.map_map, Option.map_map]
    simp [memberTokens, Function.comp_def]

end Token

open Token

/-- The text of a plain value is cut into its tokens. -/
theorem Plain.scans {v : Json} (h : Plain v) : Scans v := by
  induction h with
  | null => exact scans_word rfl rfl (by decide) (List.all_eq_true.mp rfl)
  | bool b =>
    cases b with
    | false => exact scans_word rfl rfl (by decide) (List.all_eq_true.mp rfl)
    | true => exact scans_word rfl rfl (by decide) (List.all_eq_true.mp rfl)
  | number n =>
    have hdigits : ∀ c ∈ Nat.toDigits 10 n, c.isAlphanum = true := by
      intro c hc
      rw [Char.isAlphanum, Nat.isDigit_of_mem_toDigits (by decide) (by decide) hc, Bool.or_true]
    exact scans_word rfl rfl Nat.toDigits_ne_nil hdigits
  | text s =>
    intro rest _
    exact scanFrom_quoted s rest
  | @list vs _ ih =>
    intro rest _
    cases vs with
    | nil =>
      have hbrackets : (array []).compact ++ rest = '[' :: ']' :: rest := rfl
      rw [hbrackets, scanFrom_punctuation rfl, scanFrom_punctuation rfl, Option.map_map]
      rfl
    | cons v vs =>
      obtain ⟨hv, hvs⟩ := List.forall_mem_cons.mp ih
      rw [compact, List.cons_append, scanFrom_punctuation rfl, List.append_assoc,
        hv _ (breaks_compactItems vs rest), scanFrom_items hvs, Option.map_map, Option.map_map]
      simp [tokens, Function.comp_def]
  | @record fields _ ih =>
    intro rest _
    cases fields with
    | nil =>
      have hbraces : (Json.record []).compact ++ rest = '\x7b' :: '\x7d' :: rest := rfl
      rw [hbraces, scanFrom_punctuation rfl, scanFrom_punctuation rfl, Option.map_map]
      rfl
    | cons f fields =>
      obtain ⟨hf, hfields⟩ := List.forall_mem_cons.mp ih
      unfold Json.record
      rw [List.map_cons, compact, List.cons_append, scanFrom_punctuation rfl, List.append_assoc,
        scanFrom_quoted, List.cons_append, scanFrom_punctuation rfl, List.append_assoc,
        hf _ (breaks_compactMembers _ rest), scanFrom_members hfields, Option.map_map,
        Option.map_map, Option.map_map, Option.map_map]
      simp [tokens, Function.comp_def]

/-- All digits of a number are its integer part. -/
theorem dropInteger?_toDigits (n : Nat) : Text.dropInteger? (Nat.toDigits 10 n) = some [] := by
  have hdigits : ∀ c ∈ Nat.toDigits 10 n, c.isDigit = true := fun c hc =>
    Nat.isDigit_of_mem_toDigits (by decide) (by decide) hc
  obtain ⟨first, rest, hwritten⟩ := List.exists_cons_of_ne_nil (Nat.toDigits_ne_nil (n := n))
  rw [hwritten] at hdigits ⊢
  unfold Text.dropInteger?
  split
  · rename_i hzero
    cases hzero
    -- A zero in front is all that is written.
    have hhead : (Nat.toDigits 10 n).head? = some '0' := hwritten ▸ rfl
    obtain rfl : n = 0 := Text.eq_zero_of_head?_toDigits (by decide) hhead
    cases hwritten
    rfl
  · have hall : (first :: rest).dropWhile Char.isDigit = [] := List.dropWhile_eq_nil_iff.mpr hdigits
    have hfirst := hdigits first List.mem_cons_self
    simp [Text.dropDigits?, hfirst, hall]

theorem isNumeral_toDigits (n : Nat) : isNumeral (Nat.toDigits 10 n) = true := by
  have hunsigned : Text.isUnsignedNumeral (Nat.toDigits 10 n) = true := by
    rw [Text.isUnsignedNumeral, dropInteger?_toDigits]
    rfl
  unfold isNumeral
  split
  · rename_i unsigned hminus
    have hdigit : ('-').isDigit = true :=
      Nat.isDigit_of_mem_toDigits (by decide) (by decide) (hminus ▸ List.mem_cons_self)
    cases hdigit
  · exact hunsigned

/-- The word of a number is read as the number. -/
theorem ofWord?_toDigits (n : Nat) : ofWord? (Nat.toDigits 10 n) = some (ofNat n) := by
  have hword : ∀ w : List Char, 'u' ∈ w ∨ 's' ∈ w → Nat.toDigits 10 n ≠ w := by
    rintro w (hc | hc)
    all_goals exact Text.toDigits_ne (by decide) (by decide) hc (by decide) n
  rw [ofWord?, if_neg (hword _ (by decide)), if_neg (hword _ (by decide)),
    if_neg (hword _ (by decide)), if_pos (isNumeral_toDigits n)]
  rfl

namespace Expecting

/-- The reader takes the tokens of a value and is left with the value. -/
def Builds (v : Json) : Prop :=
  ∀ frames, v.tokens.foldlM step? (value frames) = some (afterValue v frames)

/-- No value begins with the end of an array, so a first item is taken like any other. -/
theorem foldlM_firstItem (v : Json) (ts : List Token) (frames : List Frame) :
    (v.tokens ++ ts).foldlM step? (firstItem frames) =
      (v.tokens ++ ts).foldlM step? (value (.items [] :: frames)) := by
  cases v with
  | null => rfl
  | bool b => cases b <;> rfl
  | number written => rfl
  | string written => rfl
  | array vs => cases vs <;> rfl
  | object ms => cases ms <;> rfl

theorem foldlM_items {vs : List Json} (h : ∀ v ∈ vs, Builds v) (v : Json) (before : List Json)
    (frames : List Frame) :
    (itemTokens vs).foldlM step? (afterValue v (.items before :: frames)) =
      some (afterValue (.array ((v :: before).reverse ++ vs)) frames) := by
  induction vs generalizing v before with
  | nil =>
    rw [List.append_nil]
    rfl
  | cons w vs ih =>
    obtain ⟨hw, hvs⟩ := List.forall_mem_cons.mp h
    have hcomma : step? (afterValue v (.items before :: frames)) .comma =
        some (value (.items (v :: before) :: frames)) := rfl
    rw [itemTokens, List.foldlM_cons, hcomma, Option.bind_eq_bind, Option.bind_some,
      List.foldlM_append, hw, Option.bind_eq_bind, Option.bind_some, ih hvs]
    simp

theorem foldlM_members {fields : List (String × Json)} (h : ∀ f ∈ fields, Builds f.2)
    (k : List Char) (v : Json) (before : List (List Char × Json)) (frames : List Frame) :
    (memberTokens (fields.map fun (name, v) => (escape name, v))).foldlM step?
        (afterValue v (.member before k :: frames)) =
      some (afterValue (.object (((k, v) :: before).reverse ++
        fields.map fun (name, v) => (escape name, v))) frames) := by
  induction fields generalizing k v before with
  | nil =>
    rw [List.map_nil, List.append_nil]
    rfl
  | cons f fields ih =>
    obtain ⟨hf, hfields⟩ := List.forall_mem_cons.mp h
    have hkey : (memberTokens ((f :: fields).map fun (name, v) => (escape name, v))).foldlM step?
        (afterValue v (.member before k :: frames)) =
          (f.2.tokens ++ memberTokens (fields.map fun (name, v) => (escape name, v))).foldlM step?
            (value (.member ((k, v) :: before) (escape f.1) :: frames)) := rfl
    rw [hkey, List.foldlM_append, hf, Option.bind_eq_bind, Option.bind_some, ih hfields]
    simp

end Expecting

open Expecting

theorem Plain.builds {v : Json} (h : Plain v) : Builds v := by
  induction h with
  | null => exact fun _ => rfl
  | bool b => cases b <;> exact fun _ => rfl
  | number n =>
    intro frames
    have hword : step? (value frames) (.word (Nat.toDigits 10 n)) =
        some (afterValue (ofNat n) frames) := by
      rw [step?, begin?, ofWord?_toDigits]
      rfl
    change [Token.word (Nat.toDigits 10 n)].foldlM step? (value frames) = _
    rw [List.foldlM_cons, hword]
    rfl
  | text s => exact fun _ => rfl
  | @list vs _ ih =>
    intro frames
    cases vs with
    | nil => rfl
    | cons v vs =>
      obtain ⟨hv, hvs⟩ := List.forall_mem_cons.mp ih
      have hopen : (Json.array (v :: vs)).tokens.foldlM step? (value frames) =
          (v.tokens ++ itemTokens vs).foldlM step? (firstItem frames) := rfl
      rw [hopen, foldlM_firstItem, List.foldlM_append, hv, Option.bind_eq_bind, Option.bind_some,
        foldlM_items hvs]
      rfl
  | @record fields _ ih =>
    intro frames
    cases fields with
    | nil => rfl
    | cons f fields =>
      obtain ⟨hf, hfields⟩ := List.forall_mem_cons.mp ih
      have hopen : (Json.record (f :: fields)).tokens.foldlM step? (value frames) =
          (f.2.tokens ++ memberTokens (fields.map fun (name, v) => (escape name, v))).foldlM step?
            (value (.member [] (escape f.1) :: frames)) := rfl
      rw [hopen, List.foldlM_append, hf, Option.bind_eq_bind, Option.bind_some,
        foldlM_members hfields]
      rfl

/-- A plain value is read from its compact text. -/
theorem Plain.read?_compactText {v : Json} (h : Plain v) : read? v.compactText = some v := by
  have hscan : Token.scan? v.compactText.toList = some v.tokens := by
    have hall := h.scans [] (by simp [Token.Breaks])
    simpa [Token.scan?, compactText, Token.scanFrom] using hall
  rw [read?, hscan, Option.bind_some, ofTokens?, h.builds]

end Perimeter.Json
