import Perimeter.Interval.Range

/-!
Sets of values up to a fixed top, kept as the shortest list of ranges that
covers them: the ranges ascend and at least one value is missing between
neighbours. Ranges in any order are brought into this form by sorting them and
going through them once, each taking in those that touch it. Intersection and
difference go through two such lists side by side. Their parts need no such
merging, because they stand apart as soon as the ranges of both lists do. Two
sets with the same members have the same list.
-/

namespace Perimeter

/-- A set of values up to `top`, as ascending ranges that neither overlap nor touch. -/
structure IntervalSet (top : Nat) where
  ranges : List (Range top)
  separated : ranges.Pairwise Range.Before
deriving DecidableEq

namespace IntervalSet

variable {top : Nat}

instance : Membership Nat (IntervalSet top) := ⟨fun s x => ∃ r ∈ s.ranges, x ∈ r⟩

theorem mem_def {s : IntervalSet top} {x : Nat} : x ∈ s ↔ ∃ r ∈ s.ranges, x ∈ r := Iff.rfl

/-- The set without members. -/
def empty : IntervalSet top := ⟨[], .nil⟩

/-- Every value from zero to `top`. -/
def full : IntervalSet top :=
  ⟨[⟨0, top, Nat.zero_le _, Nat.le_refl _⟩], List.pairwise_singleton _ _⟩

/-- One value; nothing, if it lies above `top`. -/
def single (x : Nat) : IntervalSet top :=
  if h : x ≤ top then ⟨[⟨x, x, Nat.le_refl _, h⟩], List.pairwise_singleton _ _⟩ else empty

/-- Puts a range into its place in a sorted list. -/
def place (r : Range top) : List (Range top) → List (Range top)
  | [] => [r]
  | s :: rest => if r.le s then r :: s :: rest else s :: place r rest

/-- Sorts ranges. -/
def arrange (rs : List (Range top)) : List (Range top) := rs.foldr place []

theorem mem_place {r s : Range top} {rs : List (Range top)} : s ∈ place r rs ↔ s = r ∨ s ∈ rs := by
  induction rs with
  | nil => simp [place]
  | cons t rest ih =>
    unfold place
    split
    · simp
    · simp only [List.mem_cons, ih]
      constructor <;> rintro (h | h | h) <;> simp [h]

theorem mem_arrange {s : Range top} {rs : List (Range top)} : s ∈ arrange rs ↔ s ∈ rs := by
  unfold arrange
  induction rs with
  | nil => simp
  | cons r rest ih => simp [mem_place, ih]

theorem sorted_place {r : Range top} {rs : List (Range top)}
    (h : rs.Pairwise fun a b => a.lo ≤ b.lo) : (place r rs).Pairwise fun a b => a.lo ≤ b.lo := by
  induction rs with
  | nil => simp [place]
  | cons s rest ih =>
    obtain ⟨hs, hrest⟩ := List.pairwise_cons.1 h
    unfold place
    split
    · rename_i hle
      have hrs := Range.lo_le_of_le hle
      refine List.pairwise_cons.2 ⟨fun t ht => ?_, h⟩
      rcases List.mem_cons.1 ht with rfl | ht
      · exact hrs
      · exact Nat.le_trans hrs (hs t ht)
    · rename_i hle
      refine List.pairwise_cons.2 ⟨fun t ht => ?_, ih hrest⟩
      rcases mem_place.1 ht with rfl | ht
      · exact Range.lo_le_of_not_le hle
      · exact hs t ht

theorem sorted_arrange (rs : List (Range top)) :
    (arrange rs).Pairwise fun a b => a.lo ≤ b.lo := by
  unfold arrange
  induction rs with
  | nil => exact .nil
  | cons r rest ih => exact sorted_place ih

/-- Goes through a sorted list with one range in hand. The next range extends
the one in hand if the two touch, and takes its place otherwise. -/
def sweepFrom (last : Range top) : List (Range top) → List (Range top)
  | [] => [last]
  | r :: rest =>
    if last.touches r then sweepFrom (last.reach r) rest else last :: sweepFrom r rest

/-- Merges the ranges of a sorted list that overlap or touch. -/
def sweep : List (Range top) → List (Range top)
  | [] => []
  | r :: rest => sweepFrom r rest

/-- The invariant of going through a list: the range in hand starts no later
than any range still to come. Taking in the next one leaves its start alone. -/
theorem sorted_reach {last r : Range top} {rest : List (Range top)}
    (h : (last :: r :: rest).Pairwise fun a b => a.lo ≤ b.lo) :
    (last.reach r :: rest).Pairwise fun a b => a.lo ≤ b.lo := by
  obtain ⟨hlast, hrest⟩ := List.pairwise_cons.1 h
  refine List.pairwise_cons.2 ⟨fun s hs => ?_, (List.pairwise_cons.1 hrest).2⟩
  rw [Range.lo_reach]
  exact hlast s (List.mem_cons_of_mem _ hs)

theorem lo_le_sweepFrom {last : Range top} {rs : List (Range top)}
    (h : (last :: rs).Pairwise fun a b => a.lo ≤ b.lo) :
    ∀ s ∈ sweepFrom last rs, last.lo ≤ s.lo := by
  induction rs generalizing last with
  | nil => simp [sweepFrom]
  | cons r rest ih =>
    unfold sweepFrom
    split
    · simpa using ih (sorted_reach h)
    · obtain ⟨hlast, hrest⟩ := List.pairwise_cons.1 h
      intro s hs
      rcases List.mem_cons.1 hs with rfl | hs
      · exact Nat.le_refl _
      · exact Nat.le_trans (hlast r (by simp)) (ih hrest s hs)

theorem separated_sweepFrom {last : Range top} {rs : List (Range top)}
    (h : (last :: rs).Pairwise fun a b => a.lo ≤ b.lo) :
    (sweepFrom last rs).Pairwise Range.Before := by
  induction rs generalizing last with
  | nil => simp [sweepFrom]
  | cons r rest ih =>
    unfold sweepFrom
    split
    · exact ih (sorted_reach h)
    · rename_i hclear
      have hbefore : last.Before r := Decidable.of_not_not fun h => hclear (Range.touches_iff.2 h)
      have hrest := (List.pairwise_cons.1 h).2
      refine List.pairwise_cons.2 ⟨fun s hs => ?_, ih hrest⟩
      exact Nat.lt_of_lt_of_le hbefore (lo_le_sweepFrom hrest s hs)

theorem separated_sweep {rs : List (Range top)} (h : rs.Pairwise fun a b => a.lo ≤ b.lo) :
    (sweep rs).Pairwise Range.Before := by
  cases rs with
  | nil => exact .nil
  | cons r rest => exact separated_sweepFrom h

/-- The values of ranges in any order. -/
def ofRanges (rs : List (Range top)) : IntervalSet top :=
  ⟨sweep (arrange rs), separated_sweep (sorted_arrange rs)⟩

/-- The values covered by a list of bounds in any order; a pair whose first
bound exceeds its second, or which passes `top`, covers nothing. -/
def ofBounds (bounds : List (Nat × Nat)) : IntervalSet top :=
  ofRanges (bounds.filterMap fun b => Range.between? top b.1 b.2)

/-- The values of either set. -/
def union (s t : IntervalSet top) : IntervalSet top := ofRanges (s.ranges ++ t.ranges)

/-- The parts that one range shares with those of a list, up to the first that
ends behind it. From there on the list is left to `next`. -/
def meetUntil (r : Range top) (next : List (Range top) → List (Range top)) :
    List (Range top) → List (Range top)
  | [] => []
  | t :: rest =>
    (r.meet? t).toList ++ if r.hi < t.hi then next (t :: rest) else meetUntil r next rest

/-- The parts that the ranges of two lists share. Of the two ranges in front,
the one that ends first is done with after each step. -/
def meetRanges : List (Range top) → List (Range top) → List (Range top)
  | [] => fun _ => []
  | r :: rest => meetUntil r (meetRanges rest)

@[simp] theorem meetRanges_nil (rs : List (Range top)) : meetRanges rs [] = [] := by
  cases rs <;> rfl

theorem meetRanges_cons_cons (r t : Range top) (rs ts : List (Range top)) :
    meetRanges (r :: rs) (t :: ts) =
      (r.meet? t).toList ++
        if r.hi < t.hi then meetRanges rs (t :: ts) else meetRanges (r :: rs) ts := rfl

/-- Steps through two lists as the sweep over them does. -/
theorem meetRanges_induction {motive : List (Range top) → List (Range top) → Prop}
    (left : ∀ ts, motive [] ts) (right : ∀ rs, motive rs [])
    (skipLeft : ∀ r t rs ts, r.hi < t.hi → motive rs (t :: ts) → motive (r :: rs) (t :: ts))
    (skipRight : ∀ r t rs ts, t.hi ≤ r.hi → motive (r :: rs) ts → motive (r :: rs) (t :: ts))
    (rs ts : List (Range top)) : motive rs ts := by
  induction rs generalizing ts with
  | nil => exact left ts
  | cons r rs ihr =>
    induction ts with
    | nil => exact right _
    | cons t ts iht =>
      by_cases h : r.hi < t.hi
      · exact skipLeft r t rs ts h (ihr (t :: ts))
      · exact skipRight r t rs ts (Nat.le_of_not_lt h) iht

/-- Each part found lies in one range of either list. -/
theorem exists_of_mem_meetRanges {rs ts : List (Range top)} {m : Range top}
    (h : m ∈ meetRanges rs ts) : ∃ r ∈ rs, ∃ t ∈ ts, r.meet? t = some m := by
  induction rs, ts using meetRanges_induction with
  | left ts => cases h
  | right rs => simp at h
  | skipLeft r t rs ts hlt ih =>
    rw [meetRanges_cons_cons, if_pos hlt] at h
    rcases List.mem_append.1 h with h | h
    · exact ⟨r, by simp, t, by simp, by simpa using h⟩
    · obtain ⟨r', hr', found⟩ := ih h
      exact ⟨r', by simp [hr'], found⟩
  | skipRight r t rs ts hle ih =>
    rw [meetRanges_cons_cons, if_neg (Nat.not_lt.2 hle)] at h
    rcases List.mem_append.1 h with h | h
    · exact ⟨r, by simp, t, by simp, by simpa using h⟩
    · obtain ⟨r', hr', t', ht', found⟩ := ih h
      exact ⟨r', hr', t', by simp [ht'], found⟩

/-- Shared parts stand apart: a later part lies in a later range of one of the
lists, and the part before it ends inside the range in front. -/
theorem separated_meetRanges {rs ts : List (Range top)} (hr : rs.Pairwise Range.Before)
    (ht : ts.Pairwise Range.Before) : (meetRanges rs ts).Pairwise Range.Before := by
  induction rs, ts using meetRanges_induction with
  | left ts => exact .nil
  | right rs => simp
  | skipLeft r t rs ts hlt ih =>
    obtain ⟨hbefore, hrest⟩ := List.pairwise_cons.1 hr
    rw [meetRanges_cons_cons, if_pos hlt]
    refine List.pairwise_append.2 ⟨by cases r.meet? t <;> simp, ih hrest ht, ?_⟩
    intro m hm n hn
    obtain ⟨r', hr', t', _, hn⟩ := exists_of_mem_meetRanges hn
    exact Range.before_of_meet? (Option.mem_toList.1 hm) hn (Or.inl (hbefore r' hr'))
  | skipRight r t rs ts hle ih =>
    obtain ⟨hbefore, hrest⟩ := List.pairwise_cons.1 ht
    rw [meetRanges_cons_cons, if_neg (Nat.not_lt.2 hle)]
    refine List.pairwise_append.2 ⟨by cases r.meet? t <;> simp, ih hr hrest, ?_⟩
    intro m hm n hn
    obtain ⟨r', _, t', ht', hn⟩ := exists_of_mem_meetRanges hn
    exact Range.before_of_meet? (Option.mem_toList.1 hm) hn (Or.inr (hbefore t' ht'))

/-- The values of both sets. -/
def intersect (s t : IntervalSet top) : IntervalSet top :=
  ⟨meetRanges s.ranges t.ranges, separated_meetRanges s.separated t.separated⟩

/-- What cuts leave of a range, given that the first of them does not end before
it. What lies behind a cut is left to the cuts after it. -/
def cutRange (r : Range top) : List (Range top) → List (Range top)
  | [] => [r]
  | c :: cuts =>
    if r.hi < c.lo then [r]
    else (r.front? c).toList ++ (r.back? c).elim [] (cutRange · cuts)

/-- What cuts leave of the ranges of a list. Cuts that end before one range end
before all that follow it. -/
def cutRanges : List (Range top) → List (Range top) → List (Range top)
  | [], _ => []
  | r :: rest, cuts =>
    let ahead := cuts.dropWhile (·.hi < r.lo)
    cutRange r ahead ++ cutRanges rest ahead

/-- Cuts that ascend, none of which ends before a range. -/
structure Ahead (r : Range top) (cuts : List (Range top)) : Prop where
  separated : cuts.Pairwise Range.Before
  lo_le_hi : ∀ c ∈ cuts, r.lo ≤ c.hi

theorem Ahead.behind {r behind c : Range top} {cuts : List (Range top)}
    (h : Ahead r (c :: cuts)) (hback : r.back? c = some behind) : Ahead behind cuts := by
  obtain ⟨hbefore, hcuts⟩ := List.pairwise_cons.1 h.separated
  refine ⟨hcuts, fun d hd => ?_⟩
  have := Range.back?_eq_some.1 hback
  have := d.lo_le_hi
  have hclear : c.hi + 1 < d.lo := hbefore d hd
  omega

theorem ahead_dropWhile (r : Range top) {cuts : List (Range top)}
    (h : cuts.Pairwise Range.Before) : Ahead r (cuts.dropWhile (·.hi < r.lo)) := by
  induction cuts with
  | nil => exact ⟨.nil, by simp⟩
  | cons c cuts ih =>
    obtain ⟨hbefore, hcuts⟩ := List.pairwise_cons.1 h
    by_cases hc : c.hi < r.lo
    · rw [List.dropWhile_cons_of_pos (by simpa using hc)]
      exact ih hcuts
    · rw [List.dropWhile_cons_of_neg (by simpa using hc)]
      refine ⟨h, fun d hd => ?_⟩
      rcases List.mem_cons.1 hd with rfl | hd
      · omega
      · have := d.lo_le_hi
        have hclear : c.hi + 1 < d.lo := hbefore d hd
        omega

theorem bounds_cutRange {r : Range top} {cuts : List (Range top)} (h : Ahead r cuts) :
    ∀ p ∈ cutRange r cuts, r.lo ≤ p.lo ∧ p.hi ≤ r.hi := by
  induction cuts generalizing r with
  | nil => simp [cutRange]
  | cons c cuts ih =>
    intro p hp
    unfold cutRange at hp
    split at hp
    · simp_all
    · rcases List.mem_append.1 hp with hp | hp
      · have := Range.front?_eq_some.1 (Option.mem_toList.1 hp)
        omega
      · have := h.lo_le_hi c (by simp)
        cases hback : r.back? c with
        | none => simp [hback] at hp
        | some behind =>
          rw [hback] at hp
          have := ih (h.behind hback) p hp
          have := Range.back?_eq_some.1 hback
          omega

theorem separated_cutRange {r : Range top} {cuts : List (Range top)} (h : Ahead r cuts) :
    (cutRange r cuts).Pairwise Range.Before := by
  induction cuts generalizing r with
  | nil => simp [cutRange]
  | cons c cuts ih =>
    unfold cutRange
    split
    · simp
    · cases hback : r.back? c with
      | none => cases r.front? c <;> simp
      | some behind =>
        have hahead := h.behind hback
        refine List.pairwise_append.2 ⟨by cases r.front? c <;> simp, ih hahead, ?_⟩
        intro p hp q hq
        have := Range.front?_eq_some.1 (Option.mem_toList.1 hp)
        have := Range.back?_eq_some.1 hback
        have := bounds_cutRange hahead q hq
        have := c.lo_le_hi
        simp only [Range.Before]
        omega

theorem bounds_cutRanges {rs cuts : List (Range top)} (h : cuts.Pairwise Range.Before) :
    ∀ p ∈ cutRanges rs cuts, ∃ r ∈ rs, r.lo ≤ p.lo ∧ p.hi ≤ r.hi := by
  induction rs generalizing cuts with
  | nil => simp [cutRanges]
  | cons r rest ih =>
    have hahead := ahead_dropWhile r h
    intro p hp
    rcases List.mem_append.1 hp with hp | hp
    · exact ⟨r, by simp, bounds_cutRange hahead p hp⟩
    · obtain ⟨s, hs, hbounds⟩ := ih hahead.separated p hp
      exact ⟨s, by simp [hs], hbounds⟩

/-- What is left stands apart: inside one range there is a cut between two
parts, and parts of two ranges lie inside these. -/
theorem separated_cutRanges {rs cuts : List (Range top)} (hrs : rs.Pairwise Range.Before)
    (hcuts : cuts.Pairwise Range.Before) : (cutRanges rs cuts).Pairwise Range.Before := by
  induction rs generalizing cuts with
  | nil => exact .nil
  | cons r rest ih =>
    obtain ⟨hbefore, hrest⟩ := List.pairwise_cons.1 hrs
    have hahead := ahead_dropWhile r hcuts
    refine List.pairwise_append.2 ⟨separated_cutRange hahead, ih hrest hahead.separated, ?_⟩
    intro p hp q hq
    obtain ⟨s, hs, hq⟩ := bounds_cutRanges hahead.separated q hq
    have := hbefore s hs
    have := bounds_cutRange hahead p hp
    simp only [Range.Before] at *
    omega

/-- The values of `s` that `t` lacks. -/
def subtract (s t : IntervalSet top) : IntervalSet top :=
  ⟨cutRanges s.ranges t.ranges, separated_cutRanges s.separated t.separated⟩

def isEmpty (s : IntervalSet top) : Bool := s.ranges.isEmpty

def isFull (s : IntervalSet top) : Bool := s == full

/-- The one range that can cover `[lo, hi]` is the first that does not end
before `lo`. Bounds in the wrong order are answered by the same rule. -/
def containsRange (s : IntervalSet top) (lo hi : Nat) : Bool :=
  match s.ranges.find? (lo ≤ ·.hi) with
  | some r => r.lo ≤ lo && hi ≤ r.hi
  | none => false

def contains (s : IntervalSet top) (x : Nat) : Bool := s.containsRange x x

def isSubset (s t : IntervalSet top) : Bool :=
  s.ranges.all fun r => t.containsRange r.lo r.hi

end IntervalSet

end Perimeter
