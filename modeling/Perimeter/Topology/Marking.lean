import Perimeter.Counting

/-!
Which of a number of nodes lead to one of them. Those that are known to do so are
marked, and a queue holds the marked ones whose feeders, the nodes with an edge into
them, have not been looked at. A turn takes the first node from the queue and marks
and queues those of its feeders that have no mark. A node is queued only when it gets
its mark, so there are no more turns than nodes.
-/

namespace Perimeter

/-- How far the marking of nodes has come. -/
structure Marking (n : Nat) where
  marks : Vector Bool n
  /-- Marked nodes whose feeders are still to be looked at. -/
  queue : List (Fin n)

namespace Marking

variable {n : Nat}

/-- The target alone is marked. -/
def start (target : Fin n) : Marking n :=
  ⟨(Vector.replicate n false).set target.val true target.isLt, [target]⟩

def isMarked (m : Marking n) (i : Fin n) : Bool := m.marks.get i

/-- Marks and queues a node, unless it has its mark. -/
def mark (m : Marking n) (i : Fin n) : Marking n :=
  if m.isMarked i then m else ⟨m.marks.set i.val true i.isLt, m.queue ++ [i]⟩

theorem isMarked_start_self (target : Fin n) : (start target).isMarked target = true :=
  Vector.getElem_set_self target.isLt

theorem isMarked_set_self {m : Marking n} {i : Fin n} {queue : List (Fin n)} :
    isMarked ⟨m.marks.set i.val true i.isLt, queue⟩ i = true :=
  Vector.getElem_set_self i.isLt

theorem isMarked_set_of_ne {m : Marking n} {i j : Fin n} {queue : List (Fin n)} (h : i ≠ j) :
    isMarked ⟨m.marks.set i.val true i.isLt, queue⟩ j = m.isMarked j :=
  Vector.getElem_set_ne i.isLt j.isLt fun hval => h (Fin.ext hval)

/-- The number of turns that are left at most: one for each node in the queue and one
for each node without a mark. -/
def turnsLeft (m : Marking n) : Nat :=
  (List.finRange n).countP (fun i => !m.isMarked i) + m.queue.length

theorem turnsLeft_start_le (target : Fin n) : (start target).turnsLeft ≤ n := by
  have hless : (List.finRange n).countP (fun i => !(start target).isMarked i) <
      (List.finRange n).countP fun _ => true :=
    countP_lt_countP (fun _ _ _ => rfl) (List.mem_finRange target)
      (by simp [isMarked_start_self]) rfl
  rw [List.countP_true, List.length_finRange] at hless
  exact hless

/-- A node that joins the queue is no longer without a mark. -/
theorem turnsLeft_mark_le (m : Marking n) (i : Fin n) : (m.mark i).turnsLeft ≤ m.turnsLeft := by
  unfold mark
  split
  · exact Nat.le_refl _
  · rename_i hfree
    have hless : (List.finRange n).countP (fun j =>
          !isMarked ⟨m.marks.set i.val true i.isLt, m.queue ++ [i]⟩ j) <
        (List.finRange n).countP fun j => !m.isMarked j := by
      refine countP_lt_countP (fun j _ hj => ?_) (List.mem_finRange i) ?_ ?_
      · by_cases hij : i = j
        · subst hij
          rw [isMarked_set_self] at hj
          cases hj
        · rwa [isMarked_set_of_ne hij] at hj
      · rw [isMarked_set_self, Bool.not_true]
      · simpa using hfree
    simp only [turnsLeft, List.length_append, List.length_singleton]
    omega

theorem turnsLeft_foldl_mark_le (m : Marking n) (is : List (Fin n)) :
    (is.foldl mark m).turnsLeft ≤ m.turnsLeft := by
  induction is generalizing m with
  | nil => exact Nat.le_refl _
  | cons i rest ih => exact Nat.le_trans (ih _) (turnsLeft_mark_le m i)

/-- Takes the first node from the queue and marks its feeders. -/
def turn (feeders : Vector (List (Fin n)) n) (m : Marking n) : Marking n :=
  match m.queue with
  | [] => m
  | i :: rest => (feeders.get i).foldl mark ⟨m.marks, rest⟩

theorem turnsLeft_turn_lt (feeders : Vector (List (Fin n)) n) {m : Marking n}
    (h : m.queue ≠ []) : (m.turn feeders).turnsLeft < m.turnsLeft := by
  obtain ⟨marks, queue⟩ := m
  cases queue with
  | nil => exact absurd rfl h
  | cons i rest =>
    have hle := turnsLeft_foldl_mark_le ⟨marks, rest⟩ (feeders.get i)
    exact Nat.lt_of_le_of_lt hle (Nat.lt_succ_self _)

/-- The marks once the queue is empty. -/
def spread (feeders : Vector (List (Fin n)) n) (m : Marking n) : Vector Bool n :=
  if m.queue = [] then m.marks else spread feeders (m.turn feeders)
termination_by m.turnsLeft
decreasing_by exact turnsLeft_turn_lt feeders ‹_›

end Marking

end Perimeter
