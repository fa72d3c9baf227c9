/-!
Counts and sums over lists that get smaller. Searches end because each step
leaves fewer items unvisited, or covers more at one place and no less anywhere.
-/

namespace Perimeter

/-- A stronger test that fails at one more item counts fewer of them. -/
theorem countP_lt_countP {α : Type} {p q : α → Bool} {l : List α} {a : α}
    (himp : ∀ x ∈ l, p x → q x) (ha : a ∈ l) (hp : p a = false) (hq : q a = true) :
    l.countP p < l.countP q := by
  obtain ⟨before, after, rfl⟩ := List.append_of_mem ha
  have h₁ : before.countP p ≤ before.countP q :=
    List.countP_mono_left fun x hx => himp x (by simp [hx])
  have h₂ : after.countP p ≤ after.countP q :=
    List.countP_mono_left fun x hx => himp x (by simp [hx])
  simp only [List.countP_append, List.countP_cons, hp, hq, Bool.false_eq_true, if_false, if_true]
  omega

/-- The sum of what a function gives for each item of a list. -/
def sumOver {α : Type} (f : α → Nat) : List α → Nat
  | [] => 0
  | a :: rest => f a + sumOver f rest

/-- Sums of terms that are nowhere greater are not greater. -/
theorem sumOver_le_sumOver {α : Type} {f g : α → Nat} {l : List α}
    (hle : ∀ x ∈ l, f x ≤ g x) : sumOver f l ≤ sumOver g l := by
  induction l with
  | nil => exact Nat.le_refl _
  | cons x rest ih =>
    have := hle x (by simp)
    have := ih fun y hy => hle y (by simp [hy])
    simp only [sumOver]
    omega

/-- A sum whose terms are nowhere greater is smaller by as much as one of them is. -/
theorem sumOver_add_le_sumOver {α : Type} {f g : α → Nat} {l : List α} {a : α} {d : Nat}
    (hle : ∀ x ∈ l, f x ≤ g x) (ha : a ∈ l) (hless : f a + d ≤ g a) :
    sumOver f l + d ≤ sumOver g l := by
  induction l with
  | nil => cases ha
  | cons x rest ih =>
    have hx := hle x (by simp)
    have hrest : ∀ y ∈ rest, f y ≤ g y := fun y hy => hle y (by simp [hy])
    simp only [sumOver]
    rcases List.mem_cons.1 ha with rfl | ha
    · have := sumOver_le_sumOver hrest
      omega
    · have := ih hrest ha
      omega

/-- Sums of terms that are nowhere greater and somewhere smaller are smaller. -/
theorem sumOver_lt_sumOver {α : Type} {f g : α → Nat} {l : List α} {a : α}
    (hle : ∀ x ∈ l, f x ≤ g x) (ha : a ∈ l) (hlt : f a < g a) : sumOver f l < sumOver g l :=
  Nat.lt_of_succ_le (sumOver_add_le_sumOver (d := 1) hle ha hlt)

end Perimeter
