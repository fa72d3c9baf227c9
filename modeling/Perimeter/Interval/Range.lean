/-!
Inclusive ranges of natural numbers that stay at or below a fixed top value,
and the ways in which ranges of one sorted list meet: a range stands clear
before another when a value is missing between them, and touches it otherwise,
and two ranges that share a value have a common part. Ports and the addresses
of either family are all values of this kind, with different tops.
-/

namespace Perimeter

/-- The value after `x`, unless `x` is the last one. -/
def succ? (top x : Nat) : Option Nat := if x < top then some (x + 1) else none

/-- The value before `x`, unless `x` is the first one. -/
def pred? (x : Nat) : Option Nat := if 0 < x then some (x - 1) else none

/-- An inclusive range of values, none of them above `top`. -/
structure Range (top : Nat) where
  lo : Nat
  hi : Nat
  lo_le_hi : lo ≤ hi
  hi_le_top : hi ≤ top
deriving DecidableEq

namespace Range

variable {top : Nat}

instance : Membership Nat (Range top) := ⟨fun r x => r.lo ≤ x ∧ x ≤ r.hi⟩

theorem mem_def {r : Range top} {x : Nat} : x ∈ r ↔ r.lo ≤ x ∧ x ≤ r.hi := Iff.rfl

instance (x : Nat) (r : Range top) : Decidable (x ∈ r) :=
  inferInstanceAs (Decidable (r.lo ≤ x ∧ x ≤ r.hi))

/-- The range between two bounds, if it has a member and stays within `top`. -/
def between? (top lo hi : Nat) : Option (Range top) :=
  if h : lo ≤ hi ∧ hi ≤ top then some ⟨lo, hi, h.1, h.2⟩ else none

/-- At least one value is missing between the end of `a` and the start of `b`. -/
def Before (a b : Range top) : Prop := a.hi + 1 < b.lo

instance (a b : Range top) : Decidable (a.Before b) :=
  inferInstanceAs (Decidable (a.hi + 1 < b.lo))

/-- Whether a range goes before another in order: by its start, and where the
starts are equal by its end. -/
def le (a b : Range top) : Bool := a.lo < b.lo || (a.lo == b.lo && a.hi ≤ b.hi)

/-- Whether `b` starts inside `a` or right behind it, given that it does not
start before `a`. Nothing can start behind a range that ends at `top`. -/
def touches (a b : Range top) : Bool :=
  match succ? top a.hi with
  | some next => b.lo ≤ next
  | none => true

/-- The range as far as the end of another, if that is further. -/
def reach (a b : Range top) : Range top :=
  if h : a.hi < b.hi then ⟨a.lo, b.hi, by have := a.lo_le_hi; omega, b.hi_le_top⟩ else a

/-- The part that two ranges share. -/
def meet? (a b : Range top) : Option (Range top) :=
  between? top (max a.lo b.lo) (min a.hi b.hi)

/-- The part of a range before another that starts inside it. -/
def front? (r c : Range top) : Option (Range top) :=
  if r.lo < c.lo then (pred? c.lo).bind (between? top r.lo) else none

/-- The part of a range behind another that ends inside it. -/
def back? (r c : Range top) : Option (Range top) :=
  if r.hi ≤ c.hi then none else (succ? top c.hi).bind (between? top · r.hi)

theorem lo_le_top (r : Range top) : r.lo ≤ top := Nat.le_trans r.lo_le_hi r.hi_le_top

theorem lo_mem (r : Range top) : r.lo ∈ r := ⟨Nat.le_refl _, r.lo_le_hi⟩

theorem ext_bounds {a b : Range top} (hlo : a.lo = b.lo) (hhi : a.hi = b.hi) : a = b := by
  cases a; cases b; simp_all

theorem between?_eq_some {lo hi : Nat} {r : Range top} :
    between? top lo hi = some r ↔ r.lo = lo ∧ r.hi = hi := by
  unfold between?
  split
  · constructor
    · intro h; cases h; exact ⟨rfl, rfl⟩
    · rintro ⟨hlo, hhi⟩; exact congrArg some (ext_bounds hlo.symm hhi.symm)
  · rename_i h
    constructor
    · intro h'; cases h'
    · rintro ⟨rfl, rfl⟩; exact absurd ⟨r.lo_le_hi, r.hi_le_top⟩ h

theorem lo_le_of_le {a b : Range top} (h : a.le b = true) : a.lo ≤ b.lo := by
  simp only [le, Bool.or_eq_true, decide_eq_true_eq, Bool.and_eq_true, beq_iff_eq] at h
  omega

theorem lo_le_of_not_le {a b : Range top} (h : ¬a.le b = true) : b.lo ≤ a.lo := by
  simp only [le, Bool.or_eq_true, decide_eq_true_eq, Bool.and_eq_true, beq_iff_eq] at h
  omega

/-- Two ranges touch unless a value is missing between them. -/
theorem touches_iff {a b : Range top} : a.touches b = true ↔ ¬a.Before b := by
  have := b.lo_le_top
  unfold touches succ? Before
  split <;> rename_i h <;> split at h
  · cases h
    simp
  · cases h
  · cases h
  · simp only [true_iff]
    omega

@[simp] theorem lo_reach {a b : Range top} : (a.reach b).lo = a.lo := by
  unfold reach
  split <;> rfl

@[simp] theorem hi_reach {a b : Range top} : (a.reach b).hi = max a.hi b.hi := by
  unfold reach
  split
  · exact (Nat.max_eq_right (Nat.le_of_lt ‹_›)).symm
  · exact (Nat.max_eq_left (Nat.le_of_not_lt ‹_›)).symm

theorem meet?_eq_some {a b r : Range top} :
    a.meet? b = some r ↔ r.lo = max a.lo b.lo ∧ r.hi = min a.hi b.hi :=
  between?_eq_some

/-- Parts of two pairs of ranges stand apart as soon as ranges of one side do. -/
theorem before_of_meet? {a b m a' b' m' : Range top} (hm : a.meet? b = some m)
    (hm' : a'.meet? b' = some m') (h : a.Before a' ∨ b.Before b') : m.Before m' := by
  have := meet?_eq_some.1 hm
  have := meet?_eq_some.1 hm'
  unfold Before at *
  omega

theorem front?_eq_some {r c p : Range top} :
    r.front? c = some p ↔ r.lo < c.lo ∧ p.lo = r.lo ∧ p.hi + 1 = c.lo := by
  unfold front?
  split
  · have hpred : pred? c.lo = some (c.lo - 1) := if_pos (by omega)
    rw [hpred, Option.bind_some, between?_eq_some]
    omega
  · simp only [reduceCtorEq, false_iff]
    omega

theorem back?_eq_some {r c p : Range top} :
    r.back? c = some p ↔ c.hi < r.hi ∧ p.lo = c.hi + 1 ∧ p.hi = r.hi := by
  unfold back?
  split
  · simp only [reduceCtorEq, false_iff]
    omega
  · have := r.hi_le_top
    have hsucc : succ? top c.hi = some (c.hi + 1) := if_pos (by omega)
    rw [hsucc, Option.bind_some, between?_eq_some]
    omega

theorem mem_front? {r c : Range top} {x : Nat} :
    (∃ p, r.front? c = some p ∧ x ∈ p) ↔ r.lo ≤ x ∧ x < c.lo := by
  constructor
  · rintro ⟨p, hp, hx⟩
    have := front?_eq_some.1 hp
    simp only [mem_def] at hx
    omega
  · intro hx
    have := c.lo_le_top
    refine ⟨⟨r.lo, c.lo - 1, by omega, by omega⟩, front?_eq_some.2 ⟨by omega, rfl, ?_⟩, ?_⟩
    · simp only
      omega
    · simp only [mem_def]
      omega

theorem mem_back? {r c : Range top} {x : Nat} :
    (∃ p, r.back? c = some p ∧ x ∈ p) ↔ c.hi < x ∧ x ≤ r.hi := by
  constructor
  · rintro ⟨p, hp, hx⟩
    have := back?_eq_some.1 hp
    simp only [mem_def] at hx
    omega
  · intro hx
    have := r.hi_le_top
    exact ⟨⟨c.hi + 1, r.hi, by omega, this⟩, back?_eq_some.2 ⟨by omega, rfl, rfl⟩, hx⟩

/-- The shared part of two ranges holds exactly the values of both. -/
theorem mem_meet? {a b : Range top} {x : Nat} :
    (∃ r, a.meet? b = some r ∧ x ∈ r) ↔ x ∈ a ∧ x ∈ b := by
  constructor
  · rintro ⟨r, hr, hx⟩
    have := meet?_eq_some.1 hr
    simp only [mem_def] at hx ⊢
    omega
  · rintro ⟨ha, hb⟩
    simp only [mem_def] at ha hb
    have := a.hi_le_top
    refine ⟨⟨max a.lo b.lo, min a.hi b.hi, by omega, by omega⟩, meet?_eq_some.2 ⟨rfl, rfl⟩, ?_⟩
    simp only [mem_def]
    omega

end Range

end Perimeter
