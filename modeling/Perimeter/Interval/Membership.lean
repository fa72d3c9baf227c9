import Perimeter.Interval.Set

/-!
What each operation on interval sets does to membership, and the normal form:
a set is determined by its members. The membership and subset tests look at one
candidate range only; because ranges are separated this decides the question.
-/

namespace Perimeter

namespace IntervalSet

variable {top : Nat} {s t : IntervalSet top} {x : Nat}

theorem le_top_of_mem (h : x ∈ s) : x ≤ top := by
  obtain ⟨r, _, hx⟩ := h
  exact Nat.le_trans hx.2 r.hi_le_top

@[simp] theorem not_mem_empty : x ∉ (empty : IntervalSet top) := by
  rintro ⟨_, h, _⟩
  cases h

@[simp] theorem mem_full : x ∈ (full : IntervalSet top) ↔ x ≤ top := by
  simp [mem_def, full, Range.mem_def]

@[simp] theorem mem_single {y : Nat} : x ∈ (single y : IntervalSet top) ↔ x = y ∧ y ≤ top := by
  unfold single
  split
  · simp only [mem_def, List.mem_singleton, exists_eq_left, Range.mem_def]
    omega
  · simp only [not_mem_empty, false_iff]
    omega

theorem exists_mem_cons {r : Range top} {rs : List (Range top)} :
    (∃ s ∈ r :: rs, x ∈ s) ↔ x ∈ r ∨ ∃ s ∈ rs, x ∈ s := by
  simp

theorem exists_mem_append {rs ts : List (Range top)} :
    (∃ s ∈ rs ++ ts, x ∈ s) ↔ (∃ r ∈ rs, x ∈ r) ∨ ∃ t ∈ ts, x ∈ t := by
  simp [or_and_right, exists_or]

/-- Ranges that a range stands before hold nothing up to its end. -/
theorem clear_of_before {r : Range top} {rs : List (Range top)} (h : ∀ s ∈ rs, r.Before s)
    (hx : x ≤ r.hi) : ∀ s ∈ rs, x ∉ s := by
  intro s hs hin
  have := h s hs
  simp only [Range.Before, Range.mem_def] at this hin
  omega

theorem mem_sweepFrom {last : Range top} {rs : List (Range top)}
    (h : (last :: rs).Pairwise fun a b => a.lo ≤ b.lo) :
    (∃ r ∈ sweepFrom last rs, x ∈ r) ↔ x ∈ last ∨ ∃ r ∈ rs, x ∈ r := by
  induction rs generalizing last with
  | nil => simp [sweepFrom]
  | cons r rest ih =>
    obtain ⟨hlast, hrest⟩ := List.pairwise_cons.1 h
    unfold sweepFrom
    split
    · rename_i htouches
      have hmem : x ∈ last.reach r ↔ x ∈ last ∨ x ∈ r := by
        have := hlast r (by simp)
        have := Range.touches_iff.1 htouches
        have := last.lo_le_hi
        have := r.lo_le_hi
        simp only [Range.Before, Range.mem_def, Range.lo_reach, Range.hi_reach] at *
        omega
      simp only [ih (sorted_reach h), hmem, List.mem_cons, exists_eq_or_imp, or_assoc]
    · simp only [List.mem_cons, exists_eq_or_imp, ih hrest]

@[simp] theorem mem_ofRanges {rs : List (Range top)} : x ∈ ofRanges rs ↔ ∃ r ∈ rs, x ∈ r := by
  have hsorted := sorted_arrange rs
  have hsweep : (∃ r ∈ sweep (arrange rs), x ∈ r) ↔ ∃ r ∈ arrange rs, x ∈ r := by
    cases hrs : arrange rs with
    | nil => simp [sweep]
    | cons r rest => simpa [sweep] using mem_sweepFrom (hrs ▸ hsorted)
  rw [mem_def, ofRanges, hsweep]
  simp only [mem_arrange]

theorem mem_ofBounds {bounds : List (Nat × Nat)} :
    x ∈ (ofBounds bounds : IntervalSet top) ↔
      ∃ b ∈ bounds, b.1 ≤ x ∧ x ≤ b.2 ∧ b.2 ≤ top := by
  simp only [ofBounds, mem_ofRanges, List.mem_filterMap, Range.mem_def]
  constructor
  · rintro ⟨r, ⟨b, hb, hr⟩, hx⟩
    have := Range.between?_eq_some.1 hr
    have := r.hi_le_top
    exact ⟨b, hb, by omega, by omega, by omega⟩
  · rintro ⟨b, hb, h₁, h₂, h₃⟩
    exact ⟨⟨b.1, b.2, by omega, h₃⟩, ⟨b, hb, Range.between?_eq_some.2 ⟨rfl, rfl⟩⟩, h₁, h₂⟩

@[simp] theorem mem_union : x ∈ s.union t ↔ x ∈ s ∨ x ∈ t := by
  rw [union, mem_ofRanges, exists_mem_append, mem_def, mem_def]

/-- The range that a step is done with shares nothing with what is left of the
other list, because the range in front there ends later and the others are
behind it. -/
theorem mem_meetRanges {rs ts : List (Range top)} (hr : rs.Pairwise Range.Before)
    (ht : ts.Pairwise Range.Before) :
    (∃ m ∈ meetRanges rs ts, x ∈ m) ↔ (∃ r ∈ rs, x ∈ r) ∧ ∃ t ∈ ts, x ∈ t := by
  induction rs, ts using meetRanges_induction with
  | left ts => simp [meetRanges]
  | right rs => simp
  | skipLeft r t rs ts hlt ih =>
    have hclear : x ∈ r → ∀ s ∈ ts, x ∉ s := fun hx =>
      clear_of_before (List.pairwise_cons.1 ht).1 (Nat.le_of_lt (Nat.lt_of_le_of_lt hx.2 hlt))
    rw [meetRanges_cons_cons, if_pos hlt]
    simp only [exists_mem_append, Option.mem_toList, Range.mem_meet?,
      ih (List.pairwise_cons.1 hr).2 ht, exists_mem_cons]
    constructor
    · rintro (⟨hxr, hxt⟩ | ⟨hrs, hts⟩)
      · exact ⟨.inl hxr, .inl hxt⟩
      · exact ⟨.inr hrs, hts⟩
    · rintro ⟨hxr | hrs, hxt | hts⟩
      · exact .inl ⟨hxr, hxt⟩
      · obtain ⟨s, hs, hxs⟩ := hts
        exact absurd hxs (hclear hxr s hs)
      · exact .inr ⟨hrs, .inl hxt⟩
      · exact .inr ⟨hrs, .inr hts⟩
  | skipRight r t rs ts hle ih =>
    have hclear : x ∈ t → ∀ s ∈ rs, x ∉ s := fun hx =>
      clear_of_before (List.pairwise_cons.1 hr).1 (Nat.le_trans hx.2 hle)
    rw [meetRanges_cons_cons, if_neg (Nat.not_lt.2 hle)]
    simp only [exists_mem_append, Option.mem_toList, Range.mem_meet?,
      ih hr (List.pairwise_cons.1 ht).2, exists_mem_cons]
    constructor
    · rintro (⟨hxr, hxt⟩ | ⟨hrs, hts⟩)
      · exact ⟨.inl hxr, .inl hxt⟩
      · exact ⟨hrs, .inr hts⟩
    · rintro ⟨hxr | hrs, hxt | hts⟩
      · exact .inl ⟨hxr, hxt⟩
      · exact .inr ⟨.inl hxr, hts⟩
      · obtain ⟨s, hs, hxs⟩ := hrs
        exact absurd hxs (hclear hxt s hs)
      · exact .inr ⟨.inr hrs, hts⟩

@[simp] theorem mem_intersect : x ∈ s.intersect t ↔ x ∈ s ∧ x ∈ t :=
  mem_meetRanges s.separated t.separated

/-- Values before a cut are clear of all later ones, and a cut that ends behind
the range is the last to take anything from it. -/
theorem mem_cutRange {r : Range top} {cuts : List (Range top)} (h : Ahead r cuts) :
    (∃ p ∈ cutRange r cuts, x ∈ p) ↔ x ∈ r ∧ ∀ c ∈ cuts, x ∉ c := by
  induction cuts generalizing r with
  | nil => simp [cutRange]
  | cons c cuts ih =>
    have hlater : x ≤ c.hi → ∀ d ∈ cuts, x ∉ d :=
      clear_of_before (List.pairwise_cons.1 h.separated).1
    have hlo := h.lo_le_hi c (by simp)
    have hc := c.lo_le_hi
    simp only [List.forall_mem_cons]
    unfold cutRange
    split
    · simp only [List.mem_singleton, exists_eq_left, Range.mem_def] at *
      exact ⟨fun hx => ⟨hx, by omega, hlater (by omega)⟩, fun hx => hx.1⟩
    · have hbehind : (∃ p ∈ (r.back? c).elim [] (cutRange · cuts), x ∈ p) ↔
          (c.hi < x ∧ x ≤ r.hi) ∧ ∀ d ∈ cuts, x ∉ d := by
        rw [← Range.mem_back?]
        cases hback : r.back? c with
        | none => simp
        | some behind => simp [ih (h.behind hback)]
      simp only [exists_mem_append, Option.mem_toList, Range.mem_front?, hbehind]
      simp only [Range.mem_def] at *
      constructor
      · rintro (hx | ⟨hx, hclear⟩)
        · exact ⟨by omega, by omega, hlater (by omega)⟩
        · exact ⟨by omega, by omega, hclear⟩
      · rintro ⟨hx, hxc, hclear⟩
        by_cases hbefore : x < c.lo
        · exact .inl ⟨hx.1, hbefore⟩
        · exact .inr ⟨by omega, hclear⟩

/-- Cuts that end before a range have none of its values, nor any after them. -/
theorem forall_mem_dropWhile {r : Range top} {cuts : List (Range top)} (hx : r.lo ≤ x) :
    (∀ c ∈ cuts.dropWhile (·.hi < r.lo), x ∉ c) ↔ ∀ c ∈ cuts, x ∉ c := by
  induction cuts with
  | nil => rfl
  | cons c cuts ih =>
    by_cases hc : c.hi < r.lo
    · have hclear : x ∉ c := by
        simp only [Range.mem_def]
        omega
      rw [List.dropWhile_cons_of_pos (by simpa using hc), ih, List.forall_mem_cons,
        and_iff_right hclear]
    · rw [List.dropWhile_cons_of_neg (by simpa using hc)]

theorem mem_cutRanges {rs cuts : List (Range top)} (hrs : rs.Pairwise Range.Before)
    (hcuts : cuts.Pairwise Range.Before) :
    (∃ p ∈ cutRanges rs cuts, x ∈ p) ↔ (∃ r ∈ rs, x ∈ r) ∧ ∀ c ∈ cuts, x ∉ c := by
  induction rs generalizing cuts with
  | nil => simp [cutRanges]
  | cons r rest ih =>
    obtain ⟨hbefore, hrest⟩ := List.pairwise_cons.1 hrs
    have hahead := ahead_dropWhile r hcuts
    have hfirst : x ∈ r → r.lo ≤ x := fun hx => hx.1
    have hlater : (∃ s ∈ rest, x ∈ s) → r.lo ≤ x := by
      rintro ⟨s, hs, hx⟩
      have := hbefore s hs
      have := r.lo_le_hi
      simp only [Range.Before, Range.mem_def] at *
      omega
    rw [cutRanges, exists_mem_append, mem_cutRange hahead, ih hrest hahead.separated,
      exists_mem_cons]
    constructor
    · rintro (⟨hx, hclear⟩ | ⟨hx, hclear⟩)
      · exact ⟨.inl hx, (forall_mem_dropWhile (hfirst hx)).1 hclear⟩
      · exact ⟨.inr hx, (forall_mem_dropWhile (hlater hx)).1 hclear⟩
    · rintro ⟨hx | hx, hclear⟩
      · exact .inl ⟨hx, (forall_mem_dropWhile (hfirst hx)).2 hclear⟩
      · exact .inr ⟨hx, (forall_mem_dropWhile (hlater hx)).2 hclear⟩

@[simp] theorem mem_subtract : x ∈ s.subtract t ↔ x ∈ s ∧ x ∉ t := by
  have hcut := mem_cutRanges (x := x) s.separated t.separated
  simpa [mem_def, subtract] using hcut

/-- Two separated lists with the same members are the same list: the first
ranges agree at both ends, and dropping them keeps the members equal. -/
theorem ranges_eq_of_mem_iff {rs ts : List (Range top)} (hr : rs.Pairwise Range.Before)
    (ht : ts.Pairwise Range.Before)
    (h : ∀ x, (∃ r ∈ rs, x ∈ r) ↔ ∃ t ∈ ts, x ∈ t) : rs = ts := by
  induction rs generalizing ts with
  | nil =>
    cases ts with
    | nil => rfl
    | cons t rest => simpa using (h t.lo).2 ⟨t, by simp, t.lo_mem⟩
  | cons r rest ih =>
    cases ts with
    | nil => simpa using (h r.lo).1 ⟨r, by simp, r.lo_mem⟩
    | cons t rest' =>
      obtain ⟨hr₁, hr₂⟩ := List.pairwise_cons.1 hr
      obtain ⟨ht₁, ht₂⟩ := List.pairwise_cons.1 ht
      have inLeft : ∀ x, (∃ s ∈ r :: rest, x ∈ s) → (r.lo ≤ x ∧ x ≤ r.hi) ∨ r.hi + 1 < x := by
        rintro x ⟨s, hs, hx⟩
        rcases List.mem_cons.1 hs with rfl | hs
        · exact Or.inl hx
        · have := hr₁ s hs
          simp only [Range.Before, Range.mem_def] at this hx
          omega
      have inRight : ∀ x, (∃ s ∈ t :: rest', x ∈ s) → (t.lo ≤ x ∧ x ≤ t.hi) ∨ t.hi + 1 < x := by
        rintro x ⟨s, hs, hx⟩
        rcases List.mem_cons.1 hs with rfl | hs
        · exact Or.inl hx
        · have := ht₁ s hs
          simp only [Range.Before, Range.mem_def] at this hx
          omega
      have fromLeft : ∀ x, r.lo ≤ x → x ≤ r.hi → (t.lo ≤ x ∧ x ≤ t.hi) ∨ t.hi + 1 < x :=
        fun x h₁ h₂ => inRight x ((h x).1 ⟨r, by simp, h₁, h₂⟩)
      have fromRight : ∀ x, t.lo ≤ x → x ≤ t.hi → (r.lo ≤ x ∧ x ≤ r.hi) ∨ r.hi + 1 < x :=
        fun x h₁ h₂ => inLeft x ((h x).2 ⟨t, by simp, h₁, h₂⟩)
      have hrlo := r.lo_le_hi
      have htlo := t.lo_le_hi
      have hlo : r.lo = t.lo := by
        have := fromLeft r.lo (Nat.le_refl _) hrlo
        have := fromRight t.lo (Nat.le_refl _) htlo
        omega
      have hhi : r.hi = t.hi := by
        rcases Nat.lt_trichotomy r.hi t.hi with hlt | heq | hlt
        · have := fromRight (r.hi + 1) (by omega) (by omega)
          omega
        · exact heq
        · have := fromLeft (t.hi + 1) (by omega) (by omega)
          omega
      have heq : r = t := Range.ext_bounds hlo hhi
      subst heq
      congr 1
      refine ih hr₂ ht₂ fun x => ?_
      have hx := h x
      simp only [List.mem_cons, exists_eq_or_imp] at hx
      by_cases hin : x ∈ r
      · have none : ∀ {l : List (Range top)}, (∀ s ∈ l, r.Before s) → ¬∃ s ∈ l, x ∈ s := by
          rintro l hl ⟨s, hs, hxs⟩
          exact clear_of_before hl hin.2 s hs hxs
        exact ⟨fun h' => absurd h' (none hr₁), fun h' => absurd h' (none ht₁)⟩
      · simpa [hin] using hx

/-- Sets with the same members are equal. -/
theorem ext_mem (h : ∀ x, x ∈ s ↔ x ∈ t) : s = t := by
  have := ranges_eq_of_mem_iff s.separated t.separated h
  cases s; cases t; simp_all

theorem isEmpty_iff : s.isEmpty ↔ ∀ x, x ∉ s := by
  constructor
  · rintro h x ⟨r, hr, _⟩
    have hnil : s.ranges = [] := List.isEmpty_iff.1 h
    simp [hnil] at hr
  · intro h
    cases hs : s.ranges with
    | nil => simp [isEmpty, hs]
    | cons r rest => exact absurd ⟨r, by simp [hs], r.lo_mem⟩ (h r.lo)

theorem isFull_iff : s.isFull ↔ ∀ x, x ≤ top → x ∈ s := by
  simp only [isFull, beq_iff_eq]
  constructor
  · rintro rfl x hx
    exact mem_full.2 hx
  · exact fun h => ext_mem fun x => ⟨fun hx => mem_full.2 (le_top_of_mem hx),
      fun hx => h x (mem_full.1 hx)⟩

/-- A run of values is covered exactly when one range covers all of it. -/
theorem containsRange_iff {lo hi : Nat} (h : lo ≤ hi) :
    s.containsRange lo hi ↔ ∀ x, lo ≤ x → x ≤ hi → x ∈ s := by
  unfold containsRange
  split
  · rename_i r hr
    obtain ⟨hlo, before, after, hsplit, hbefore⟩ := List.find?_eq_some_iff_append.1 hr
    simp only [decide_eq_true_eq] at hlo
    have hsep := s.separated
    rw [hsplit] at hsep
    have hafter := (List.pairwise_cons.1 (List.pairwise_append.1 hsep).2.1).1
    simp only [Bool.and_eq_true, decide_eq_true_eq]
    constructor
    · intro hr x hx hxhi
      exact ⟨r, by simp [hsplit], by omega, by omega⟩
    · intro hall
      have only : ∀ x, lo ≤ x → x ∈ s → (r.lo ≤ x ∧ x ≤ r.hi) ∨ r.hi + 1 < x := by
        rintro x hx ⟨q, hq, hxq⟩
        simp only [Range.mem_def] at hxq
        rw [hsplit] at hq
        rcases List.mem_append.1 hq with hq | hq
        · have := hbefore q hq
          simp only [Bool.not_eq_true', decide_eq_false_iff_not] at this
          omega
        · rcases List.mem_cons.1 hq with rfl | hq
          · exact Or.inl hxq
          · have := hafter q hq
            simp only [Range.Before] at this
            omega
      have hfirst := only lo (Nat.le_refl _) (hall lo (Nat.le_refl _) h)
      refine ⟨by omega, Nat.le_of_not_lt fun hlt => ?_⟩
      have := only (r.hi + 1) (by omega) (hall _ (by omega) (by omega))
      omega
  · rename_i hnone
    simp only [Bool.false_eq_true, false_iff]
    intro hall
    obtain ⟨q, hq, hx⟩ := hall lo (Nat.le_refl _) h
    have := List.find?_eq_none.1 hnone q hq
    simp only [Range.mem_def, decide_eq_true_eq] at hx this
    omega

theorem contains_iff : s.contains x ↔ x ∈ s := by
  rw [contains, containsRange_iff (Nat.le_refl x)]
  exact ⟨fun h => h x (Nat.le_refl _) (Nat.le_refl _), fun h y h₁ h₂ => by
    have : y = x := by omega
    exact this ▸ h⟩

instance (x : Nat) (s : IntervalSet top) : Decidable (x ∈ s) :=
  decidable_of_iff _ (contains_iff (s := s) (x := x))

theorem isSubset_iff : s.isSubset t ↔ ∀ x, x ∈ s → x ∈ t := by
  simp only [isSubset, List.all_eq_true]
  constructor
  · rintro h x ⟨r, hr, hx⟩
    exact (containsRange_iff r.lo_le_hi).1 (h r hr) x hx.1 hx.2
  · intro h r hr
    exact (containsRange_iff r.lo_le_hi).2 fun x h₁ h₂ => h x ⟨r, hr, h₁, h₂⟩

end IntervalSet

end Perimeter
