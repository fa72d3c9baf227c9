import Mathlib.Data.List.Basic
import Mathlib.Data.List.TakeWhile
import Perimeter.Network.Basic
import Perimeter.Proofs.Checked
import Perimeter.Proofs.Text.Digits

/-!
The written form of an address reads back, in both grammars. Octets and groups are
digits, so the marks between them can be found again. The zeros that are left out of an
address of version six are as many as a double colon stands for, since the groups around
it are all that is written.
-/

namespace Perimeter

/-- A mark that is none of the parts and does not stand between them is not there. -/
theorem not_mem_intercalate {α : Type} {mark x : α} {parts : List (List α)} (hx : x ≠ mark)
    (h : ∀ part ∈ parts, x ∉ part) : x ∉ [mark].intercalate parts := by
  induction parts with
  | nil => exact List.not_mem_nil
  | cons first rest ih =>
    obtain ⟨hfirst, hrest⟩ := List.forall_mem_cons.mp h
    cases rest with
    | nil =>
      rw [List.intercalate_singleton]
      exact hfirst
    | cons next rest =>
      rw [List.intercalate_cons_cons]
      simp [hfirst, hx, ih hrest]

/-- One mark between two parts is found again. -/
theorem splitOn_pair {α : Type} [BEq α] [LawfulBEq α] {mark : α} {front back : List α}
    (hfront : mark ∉ front) (hback : mark ∉ back) :
    (front ++ mark :: back).splitOn mark = [front, back] := by
  have hparts : front ++ mark :: back = [mark].intercalate [front, back] := by
    simp [List.intercalate_cons_cons]
  rw [hparts]
  apply List.splitOn_intercalate
  · simp [hfront, hback]
  · simp

namespace Address

open Text

variable {n : Nat} {cs : List Char}

/-- No digit of an address is one of the marks in it. -/
theorem dot_not_mem_toDigits (n : Nat) : '.' ∉ Nat.toDigits 10 n :=
  not_mem_toDigits (by decide) (by decide) (by decide) n

theorem colon_not_mem_toDigits (n : Nat) : ':' ∉ Nat.toDigits 16 n :=
  not_mem_toDigits (by decide) (by decide) (by decide) n

theorem colons_singleton (n : Nat) : colons [n] = Nat.toDigits 16 n :=
  List.intercalate_singleton

theorem colons_cons_cons (n m : Nat) (rest : List Nat) :
    colons (n :: m :: rest) = Nat.toDigits 16 n ++ ':' :: colons (m :: rest) := by
  simp [colons, List.intercalate_cons_cons]

/-- Groups begin with a digit. -/
theorem colons_cons (n : Nat) (rest : List Nat) :
    ∃ c tail, c ≠ ':' ∧ colons (n :: rest) = c :: tail := by
  obtain ⟨c, tail, hdigits⟩ := List.exists_cons_of_ne_nil (Nat.toDigits_ne_nil (n := n) (b := 16))
  have hc : c ≠ ':' := by
    rintro rfl
    exact colon_not_mem_toDigits n (by rw [hdigits]; exact List.mem_cons_self)
  cases rest with
  | nil => exact ⟨c, tail, hc, by rw [colons_singleton, hdigits]⟩
  | cons m rest => exact ⟨c, _, hc, by rw [colons_cons_cons, hdigits, List.cons_append]⟩

/-- The highest groups make up what is left of a number beyond the lower ones. The induction
is on how many there are. -/
theorem foldl_groups (h : n ≤ Family.v6.top) {k : Nat} (hk : k ≤ 8) :
    ((List.range k).map fun i => (n >>> (16 * (7 - i))) % 65536).foldl
      (fun value m => value * 65536 + m) 0 = n >>> (16 * (8 - k)) := by
  induction k with
  | zero => exact (Nat.shiftRight_eq_zero n 128 (Nat.lt_succ_of_le h)).symm
  | succ k ih =>
    have hshift : n >>> (16 * (8 - k)) = n >>> (16 * (7 - k)) / 65536 := by
      have hsum : 16 * (8 - k) = 16 * (7 - k) + 16 := by omega
      rw [hsum, Nat.shiftRight_add, Nat.shiftRight_eq_div_pow]
    have hsub : 8 - (k + 1) = 7 - k := by omega
    rw [List.range_succ, List.map_append, List.foldl_append, ih (by omega), hshift, hsub]
    exact Nat.div_add_mod' _ _

/-- A number of 128 bits is that of its groups. -/
theorem ofGroups_groups (h : n ≤ Family.v6.top) : Grammar.ofGroups (groups n) = n :=
  foldl_groups h (Nat.le_refl 8)

theorem length_groups (n : Nat) : (groups n).length = 8 := by simp [groups]

theorem groups_lt {m : Nat} (h : m ∈ groups n) : m < 65536 := by
  obtain ⟨i, _, rfl⟩ := List.mem_map.mp h
  exact Nat.mod_lt _ (by decide)

theorem dot_mem_dotted (n : Nat) : '.' ∈ dotted n := by
  simp [dotted, List.intercalate_cons_cons]

theorem not_mem_dotted {c : Char} (hc : c ≠ '.') (h : digitValue? 10 c = none) (n : Nat) :
    c ∉ dotted n :=
  not_mem_intercalate hc <| List.forall_mem_map.mpr fun octet _ =>
    not_mem_toDigits (by decide) (by decide) h octet

/-- A start and a length at which groups are zeros: with that many zeros in their place, the
groups around them are the groups again. -/
def IsZeroRun (gs : List Nat) (run : Nat × Nat) : Prop :=
  gs.take run.1 ++ (List.replicate run.2 0 ++ gs.drop (run.1 + run.2)) = gs

/-- The zeros that groups go on with at a place are a run of zeros. -/
theorem isZeroRun_takeWhile (gs : List Nat) (i : Nat) :
    IsZeroRun gs (i, ((gs.drop i).takeWhile (· == 0)).length) := by
  have hzeros : (gs.drop i).takeWhile (· == 0) =
      List.replicate ((gs.drop i).takeWhile (· == 0)).length 0 :=
    List.eq_replicate_of_mem fun n hn => by simpa using List.mem_takeWhile_imp hn
  have hrest : (gs.drop i).drop ((gs.drop i).takeWhile (· == 0)).length =
      (gs.drop i).dropWhile (· == 0) := by
    calc (gs.drop i).drop ((gs.drop i).takeWhile (· == 0)).length
      _ = ((gs.drop i).takeWhile (· == 0) ++ (gs.drop i).dropWhile (· == 0)).drop
          ((gs.drop i).takeWhile (· == 0)).length := by rw [List.takeWhile_append_dropWhile]
      _ = (gs.drop i).dropWhile (· == 0) := List.drop_left
  rw [IsZeroRun, ← List.drop_drop, ← hzeros, hrest, List.takeWhile_append_dropWhile,
    List.take_append_drop]

/-- Every run that is the longest so far is one of zeros. -/
theorem isZeroRun_longestZeroRun (gs : List Nat) : IsZeroRun gs (longestZeroRun gs) := by
  unfold longestZeroRun
  apply List.foldlRecOn
  · simp [IsZeroRun]
  · intro best hbest i _
    dsimp only
    split
    · exact isZeroRun_takeWhile gs i
    · exact hbest

/-- More than one group cannot be written without a colon. -/
theorem colon_mem_compressed {gs : List Nat} (h : gs.length = 8) : ':' ∈ compressed gs := by
  unfold compressed
  dsimp only
  split
  · simp
  · match gs, h with
    | n :: m :: rest, _ => simp [colons_cons_cons]

namespace Grammar

theorem readOctet?_toDigits (g : Grammar) (h : n < 256) :
    g.readOctet? (Nat.toDigits 10 n) = some n := by
  have hlength : (Nat.toDigits 10 n).length ≤ 3 :=
    (Nat.length_toDigits_le_iff (by decide) (by decide)).mpr (by omega)
  have hpadded : ¬(1 < (Nat.toDigits 10 n).length ∧ (Nat.toDigits 10 n).head? = some '0') := by
    rintro ⟨hlong, hhead⟩
    rw [eq_zero_of_head?_toDigits (by decide) hhead] at hlong
    simp at hlong
  rw [readOctet?, if_neg, readNat?_toDigits (by decide) (by decide)]
  · simp [h]
  · simp only [Bool.or_eq_true, Bool.and_eq_true, decide_eq_true_eq, beq_iff_eq]
    rintro (hlong | ⟨⟨_, hlong⟩, hhead⟩)
    · omega
    · exact hpadded ⟨hlong, hhead⟩

theorem readDotted?_dotted (g : Grammar) (h : n < 4294967296) :
    g.readDotted? (dotted n) = some n := by
  have hsplit : (dotted n).splitOn '.' =
      [n / 16777216, n / 65536 % 256, n / 256 % 256, n % 256].map (Nat.toDigits 10) := by
    apply List.splitOn_intercalate
    · exact List.forall_mem_map.mpr fun octet _ => dot_not_mem_toDigits octet
    · simp
  have hfirst := g.readOctet?_toDigits (n := n / 16777216) (by omega)
  have hsecond := g.readOctet?_toDigits (n := n / 65536 % 256) (by omega)
  have hthird := g.readOctet?_toDigits (n := n / 256 % 256) (by omega)
  have hfourth := g.readOctet?_toDigits (n := n % 256) (by omega)
  rw [readDotted?, hsplit]
  simp only [List.map_cons, List.map_nil, List.mapM_cons, List.mapM_nil, hfirst, hsecond, hthird,
    hfourth, Option.pure_def, Option.bind_eq_bind, Option.bind_some]
  congr 1
  omega

/-- A text with a colon in it has no dotted form. -/
theorem readDotted?_eq_none (g : Grammar) (h : ':' ∈ cs) : g.readDotted? cs = none := by
  obtain ⟨field, hfield, hcolon⟩ : ∃ field ∈ cs.splitOn '.', ':' ∈ field := by
    by_contra hnone
    push Not at hnone
    have hoff : ':' ∉ ['.'].intercalate (cs.splitOn '.') := not_mem_intercalate (by decide) hnone
    rw [List.intercalate_splitOn] at hoff
    exact hoff h
  have hoctet : g.readOctet? field = none := by
    unfold readOctet?
    split
    · rfl
    · rw [readNat?_eq_none hcolon (by decide)]
      rfl
  rw [readDotted?, mapM_eq_none hfield hoctet]

theorem readGroup?_toDigits (h : n < 65536) : readGroup? (Nat.toDigits 16 n) = some n := by
  have hlength : (Nat.toDigits 16 n).length ≤ 4 :=
    (Nat.length_toDigits_le_iff (by decide) (by decide)).mpr (by omega)
  rw [readGroup?, if_neg (by omega), readNat?_toDigits (by decide) (by decide)]

theorem readFields?_toDigits (g : Grammar) (dotted : Bool) {gs : List Nat} (hne : gs ≠ [])
    (h : ∀ n ∈ gs, n < 65536) :
    g.readFields? dotted (gs.map (Nat.toDigits 16)) = some gs := by
  induction gs with
  | nil => exact absurd rfl hne
  | cons n rest ih =>
    obtain ⟨hn, hrest⟩ := List.forall_mem_cons.mp h
    cases rest with
    | nil => simp [readFields?, readGroup?_toDigits hn]
    | cons m rest =>
      rw [List.map_cons, List.map_cons, readFields?, readGroup?_toDigits hn]
      · rw [← List.map_cons, ih (List.cons_ne_nil m rest) hrest]
        rfl
      · simp

theorem readGroups?_colons (g : Grammar) (dotted : Bool) {gs : List Nat}
    (h : ∀ n ∈ gs, n < 65536) : g.readGroups? dotted (colons gs) = some gs := by
  unfold readGroups?
  cases gs with
  | nil => rfl
  | cons n rest =>
    have hne : (colons (n :: rest)).isEmpty = false := by
      obtain ⟨c, tail, _, hcolons⟩ := colons_cons n rest
      rw [hcolons, List.isEmpty_cons]
    have hsplit : (colons (n :: rest)).splitOn ':' = (n :: rest).map (Nat.toDigits 16) := by
      apply List.splitOn_intercalate
      · exact List.forall_mem_map.mpr fun m _ => colon_not_mem_toDigits m
      · simp
    rw [hne, hsplit, if_neg Bool.false_ne_true,
      g.readFields?_toDigits dotted (List.cons_ne_nil n rest) h]

/-- No double colon begins in characters that are no colons. -/
theorem splitGap?_append (rest : List Char) (h : ':' ∉ cs) :
    splitGap? (cs ++ rest) =
      (splitGap? rest).map fun (before, after) => (cs ++ before, after) := by
  induction cs with
  | nil => simp
  | cons c cs ih =>
    rw [List.mem_cons, not_or] at h
    have hne : c ≠ ':' := fun hc => h.1 hc.symm
    rw [List.cons_append, splitGap?, ih h.2]
    · cases splitGap? rest <;> rfl
    · rintro _ hc -
      exact hne hc

/-- Groups written with single colons hold no double colon, whatever comes after them. -/
theorem splitGap?_colons (gs : List Nat) (rest : List Char) :
    splitGap? (colons gs ++ rest) =
      (splitGap? rest).map fun (before, after) => (colons gs ++ before, after) := by
  induction gs with
  | nil => simp [colons]
  | cons n more ih =>
    cases more with
    | nil =>
      rw [colons_singleton]
      exact splitGap?_append rest (colon_not_mem_toDigits n)
    | cons m more =>
      rw [colons_cons_cons, List.append_assoc, List.cons_append,
        splitGap?_append _ (colon_not_mem_toDigits n), splitGap?, ih]
      · cases splitGap? rest <;> simp
      · rintro tail - htail
        obtain ⟨c, tail', hc, hcolons⟩ := colons_cons m more
        rw [hcolons] at htail
        exact hc (List.cons.inj htail).1

/-- Eight groups with single colons between them read back. -/
theorem readColons?_colons (g : Grammar) {gs : List Nat} (hlength : gs.length = 8)
    (h : ∀ n ∈ gs, n < 65536) : g.readColons? (colons gs) = some (ofGroups gs) := by
  have hgap : splitGap? (colons gs) = none := by
    have hgap := splitGap?_colons gs []
    rw [List.append_nil] at hgap
    rw [hgap, splitGap?, Option.map_none]
  rw [readColons?, hgap]
  simp [g.readGroups?_colons true h, hlength]

/-- A double colon between groups stands for as many zeros as are missing from eight. -/
theorem readColons?_gap (g : Grammar) {front back : List Nat} {length : Nat}
    (hlong : 1 < length) (hcount : front.length + (length + back.length) = 8)
    (hfront : ∀ n ∈ front, n < 65536) (hback : ∀ n ∈ back, n < 65536) :
    g.readColons? (colons front ++ ':' :: ':' :: colons back) =
      some (ofGroups (front ++ List.replicate length 0 ++ back)) := by
  have hgap : splitGap? (colons front ++ ':' :: ':' :: colons back) =
      some (colons front, colons back) := by
    rw [splitGap?_colons, splitGap?, Option.map_some]
    simp
  have hmissing : 8 - (front.length + back.length) = length := by omega
  rw [readColons?, hgap]
  simp only [g.readGroups?_colons false hfront, g.readGroups?_colons true hback,
    Option.bind_eq_bind, Option.bind_some, hmissing]
  rw [if_pos]
  constructor
  · omega
  · split <;> omega

/-- Groups read back with or without a double colon in place of zeros. -/
theorem readColons?_compressed (g : Grammar) {gs : List Nat} (hlength : gs.length = 8)
    (h : ∀ n ∈ gs, n < 65536) : g.readColons? (compressed gs) = some (ofGroups gs) := by
  have hrun := isZeroRun_longestZeroRun gs
  unfold compressed
  generalize longestZeroRun gs = run at hrun ⊢
  obtain ⟨start, length⟩ := run
  dsimp only [IsZeroRun] at hrun ⊢
  split
  · rename_i hlong
    have hcount := congrArg List.length hrun
    rw [List.length_append, List.length_append, List.length_replicate, hlength] at hcount
    rw [List.append_assoc, List.cons_append, List.cons_append, List.nil_append,
      g.readColons?_gap hlong hcount (fun n hn => h n (List.mem_of_mem_take hn))
        fun n hn => h n (List.mem_of_mem_drop hn),
      List.append_assoc, hrun]
  · exact g.readColons?_colons hlength h

/-- An address that embeds one of version four reads back from its dotted form: the last
field is no group, so it gives the last two. -/
theorem readColons?_embedded (g : Grammar) (h : n < 4294967296) :
    g.readColons? ("::ffff:".toList ++ dotted n) = some (65535 * 4294967296 + n) := by
  have hsplit : ("ffff".toList ++ ':' :: dotted n).splitOn ':' = ["ffff".toList, dotted n] :=
    splitOn_pair (by decide) (not_mem_dotted (by decide) (by decide) n)
  have hfields : g.readFields? true ["ffff".toList, dotted n] =
      some [65535, n / 65536, n % 65536] := by
    have hfirst : readGroup? "ffff".toList = some 65535 := by decide
    have hlast : readGroup? (dotted n) = none := by
      unfold readGroup?
      split
      · rfl
      · exact readNat?_eq_none (dot_mem_dotted n) (by decide)
    rw [readFields?, hfirst]
    · simp [readFields?, hlast, g.readDotted?_dotted h]
    · simp
  have hback : g.readGroups? true ("ffff".toList ++ ':' :: dotted n) =
      some [65535, n / 65536, n % 65536] := by
    rw [readGroups?, hsplit, hfields]
    rfl
  have hgap : splitGap? ("::ffff:".toList ++ dotted n) =
      some ([], "ffff".toList ++ ':' :: dotted n) := rfl
  have hfront : g.readGroups? false [] = some [] := rfl
  have hgroups : ofGroups ([] ++ List.replicate 5 0 ++ [65535, n / 65536, n % 65536]) =
      65535 * 4294967296 + n := by
    simp only [ofGroups, List.replicate, List.nil_append, List.cons_append, List.foldl_cons,
      List.foldl_nil]
    omega
  rw [readColons?, hgap]
  simp only [hfront, hback, Option.bind_eq_bind, Option.bind_some, List.length_cons,
    List.length_nil, Nat.reduceAdd, Nat.reduceSub, hgroups]
  rw [if_pos]
  cases g.emptyGap <;> decide

/-- The written form of an address reads back in both grammars. -/
theorem read?_chars (g : Grammar) (a : Address) : g.read? a.chars = some a := by
  obtain ⟨family, value, hvalue⟩ := a
  cases family with
  | v4 =>
    have hread := g.readDotted?_dotted (n := value) (Nat.lt_succ_of_le hvalue)
    simp [read?, chars, hread, ofNat?, hvalue]
  | v6 =>
    have hcolon : ':' ∈ (⟨.v6, value, hvalue⟩ : Address).chars := by
      simp only [chars]
      split
      · simp
      · exact colon_mem_compressed (length_groups value)
    have hcolons : g.readColons? (⟨.v6, value, hvalue⟩ : Address).chars = some value := by
      simp only [chars]
      split
      · rw [g.readColons?_embedded (Nat.mod_lt _ (by decide))]
        congr 1
        omega
      · rw [g.readColons?_compressed (length_groups value) fun _ => groups_lt,
          ofGroups_groups hvalue]
    rw [read?, g.readDotted?_eq_none hcolon, hcolons, Option.bind_some, ofNat?, dif_pos hvalue]

end Grammar

/-- An address is read from its written form. -/
theorem ofText?_text (a : Address) : ofText? a.text = some a := by
  rw [ofText?, text, String.toList_ofList, Grammar.read?_chars]

example : (Address.mk .v6 42540766411282592856903984951653826561 (by decide)).text =
    "2001:db8::1" := by decide

theorem not_mem_colons {c : Char} (hc : c ≠ ':') (h : digitValue? 16 c = none) (gs : List Nat) :
    c ∉ colons gs :=
  not_mem_intercalate hc <| List.forall_mem_map.mpr fun n _ =>
    not_mem_toDigits (by decide) (by decide) h n

theorem slash_not_mem_chars (a : Address) : '/' ∉ a.chars := by
  have hdotted : ∀ n, '/' ∉ dotted n := fun n =>
    not_mem_dotted (by decide) (by decide) n
  have hcolons : ∀ gs, '/' ∉ colons gs := fun gs =>
    not_mem_colons (by decide) (by decide) gs
  unfold chars
  split
  · exact hdotted _
  · split
    · simp [hdotted]
    · unfold compressed
      dsimp only
      split
      · simp [hcolons]
      · exact hcolons _

end Address

namespace Network

/-- A prefix length has no more digits than the longest of its family. -/
theorem readLength?_toDigits {family : Family} {length : Nat} (h : length ≤ family.width) :
    readLength? family (Nat.toDigits 10 length) = some length := by
  have hread : Text.readNat? 10 (Nat.toDigits 10 length) = some length :=
    Text.readNat?_toDigits (by decide) (by decide) length
  have hdigits : ∀ k, 0 < k → length < 10 ^ k → (Nat.toDigits 10 length).length ≤ k :=
    fun k hk => (Nat.length_toDigits_le_iff (by decide) hk).mpr
  cases family with
  | v4 =>
    have hshort := hdigits 2 (by decide) (Nat.lt_of_le_of_lt h (by decide))
    simp [readLength?, hread, Nat.not_lt.mpr hshort]
  | v6 =>
    have hshort := hdigits 3 (by decide) (Nat.lt_of_le_of_lt h (by decide))
    simp [readLength?, hread, Nat.not_lt.mpr hshort]

/-- The written form of a network reads back, host bits included. -/
theorem ofText?_text (n : Network) : ofText? n.text = some n := by
  have hsplit : (n.address.chars ++ '/' :: Nat.toDigits 10 n.length).splitOn '/' =
      [n.address.chars, Nat.toDigits 10 n.length] :=
    splitOn_pair n.address.slash_not_mem_chars
      (Text.not_mem_toDigits (by decide) (by decide) (by decide) n.length)
  rw [ofText?, text, String.toList_ofList, hsplit]
  simp [Address.Grammar.read?_chars, readLength?_toDigits n.length_le_width, n.length_le_width]

end Network

end Perimeter
