import Mathlib.Logic.Function.Iterate
import Mathlib.Logic.Relation
import Perimeter.Topology.Marking

/-!
Which nodes have their marks in the end. All along, marked nodes lead to the target, and
the feeders of a marked node are marked as well unless that node is still in the queue.
Each turn keeps this, and one turn for each node is enough to empty the queue. From
then on no step against an edge leaves the marked nodes, so they are all that lead to
the target.
-/

namespace Perimeter

namespace Marking

variable {n : Nat} {feeders : Vector (List (Fin n)) n} {target i j : Fin n} {m : Marking n}

theorem isMarked_start_iff : (start target).isMarked i = true ↔ i = target := by
  constructor
  · intro h
    by_contra hne
    have hother : (start target).isMarked i = (Vector.replicate n false).get i :=
      Vector.getElem_set_ne target.isLt i.isLt fun hval => hne (Fin.ext hval.symm)
    have hfree : (Vector.replicate n false).get i = false := Vector.getElem_replicate i.isLt
    rw [hother, hfree] at h
    cases h
  · rintro rfl
    exact isMarked_start_self i

theorem isMarked_mark_iff : (m.mark i).isMarked j = true ↔ m.isMarked j = true ∨ j = i := by
  unfold mark
  split
  · rename_i hmarked
    constructor
    · exact Or.inl
    · rintro (h | rfl)
      · exact h
      · exact hmarked
  · by_cases hij : i = j
    · subst hij
      exact iff_of_true isMarked_set_self (Or.inr rfl)
    · rw [isMarked_set_of_ne hij]
      exact (or_iff_left (Ne.symm hij)).symm

theorem mem_queue_mark_iff :
    j ∈ (m.mark i).queue ↔ j ∈ m.queue ∨ (j = i ∧ ¬m.isMarked j = true) := by
  unfold mark
  split
  · rename_i hmarked
    constructor
    · exact Or.inl
    · rintro (h | ⟨rfl, hfree⟩)
      · exact h
      · exact absurd hmarked hfree
  · rename_i hfree
    rw [List.mem_append, List.mem_singleton]
    constructor
    · rintro (h | rfl)
      · exact Or.inl h
      · exact Or.inr ⟨rfl, hfree⟩
    · exact Or.imp_right And.left

theorem isMarked_foldl_mark_iff {is : List (Fin n)} :
    (is.foldl mark m).isMarked j = true ↔ m.isMarked j = true ∨ j ∈ is := by
  induction is generalizing m with
  | nil => simp
  | cons i rest ih => rw [List.foldl_cons, ih, isMarked_mark_iff, List.mem_cons, or_assoc]

/-- What joins the queue are the nodes that had no mark before. -/
theorem mem_queue_foldl_mark_iff {is : List (Fin n)} :
    j ∈ (is.foldl mark m).queue ↔ j ∈ m.queue ∨ (j ∈ is ∧ ¬m.isMarked j = true) := by
  induction is generalizing m with
  | nil => simp
  | cons i rest ih =>
    rw [List.foldl_cons, ih, mem_queue_mark_iff, isMarked_mark_iff, List.mem_cons]
    by_cases hij : j = i
    · simp [hij]
    · simp [hij]

/-- A node is listed as a feeder of another one. -/
def Feeds (feeders : Vector (List (Fin n)) n) (i j : Fin n) : Prop := i ∈ feeders.get j

/-- The invariant of the turns. What the marks do not tell yet about the feeders of a
marked node, its place in the queue makes up for. -/
structure Frontier (feeders : Vector (List (Fin n)) n) (target : Fin n) (m : Marking n) : Prop where
  marked : m.isMarked target = true
  leads : ∀ i, m.isMarked i = true → Relation.ReflTransGen (Feeds feeders) i target
  queued : ∀ i ∈ m.queue, m.isMarked i = true
  closed : ∀ j, m.isMarked j = true → j ∉ m.queue → ∀ i, Feeds feeders i j → m.isMarked i = true

theorem frontier_start (feeders : Vector (List (Fin n)) n) (target : Fin n) :
    (start target).Frontier feeders target where
  marked := isMarked_start_self target
  leads i hi := by
    rw [isMarked_start_iff.mp hi]
  queued i hi := isMarked_start_iff.mpr (List.mem_singleton.mp hi)
  closed j hj hoff := absurd (List.mem_singleton.mpr (isMarked_start_iff.mp hj)) hoff

theorem Frontier.turn (h : m.Frontier feeders target) :
    (m.turn feeders).Frontier feeders target := by
  obtain ⟨marks, queue⟩ := m
  cases queue with
  | nil => exact h
  | cons first rest =>
    have hfirst := h.queued first List.mem_cons_self
    change ((feeders.get first).foldl mark ⟨marks, rest⟩).Frontier feeders target
    refine ⟨isMarked_foldl_mark_iff.mpr (Or.inl h.marked), fun i hi => ?_, fun i hi => ?_,
      fun j hj hoff i hfeeds => ?_⟩
    · rcases isMarked_foldl_mark_iff.mp hi with hbefore | hfeeder
      · exact h.leads i hbefore
      · exact .head hfeeder (h.leads first hfirst)
    · apply isMarked_foldl_mark_iff.mpr
      rcases mem_queue_foldl_mark_iff.mp hi with hrest | ⟨hfeeder, _⟩
      · exact Or.inl (h.queued i (List.mem_cons_of_mem first hrest))
      · exact Or.inr hfeeder
    · rw [mem_queue_foldl_mark_iff, not_or, not_and_not_right] at hoff
      apply isMarked_foldl_mark_iff.mpr
      -- A node outside the queue was marked before: a feeder without a mark would be in it.
      have hbefore : isMarked ⟨marks, rest⟩ j = true :=
        (isMarked_foldl_mark_iff.mp hj).elim id hoff.2
      by_cases hj' : j = first
      · exact Or.inr (hj' ▸ hfeeds)
      · exact Or.inl (h.closed j hbefore (List.not_mem_cons_of_ne_of_not_mem hj' hoff.1) i hfeeds)

/-- The queue is empty after some turns, as many as were left at most, and the marks
stay as they are from then on. -/
theorem exists_turns (feeders : Vector (List (Fin n)) n) (m : Marking n) :
    ∃ turns ≤ m.turnsLeft, (turn feeders)^[turns] m = ⟨m.spread feeders, []⟩ := by
  fun_induction spread feeders m with
  | case1 m hqueue =>
    obtain ⟨marks, queue⟩ := m
    cases hqueue
    exact ⟨0, Nat.zero_le _, rfl⟩
  | case2 m hqueue ih =>
    obtain ⟨turns, hle, hend⟩ := ih
    have hless := turnsLeft_turn_lt feeders hqueue
    exact ⟨turns + 1, by omega, hend⟩

theorem Frontier.iterate (h : m.Frontier feeders target) (turns : Nat) :
    ((Marking.turn feeders)^[turns] m).Frontier feeders target := by
  induction turns generalizing m with
  | zero => exact h
  | succ turns ih => exact ih h.turn

/-- The nodes that are marked in the end are those that lead to the target. -/
theorem get_spread_start_iff :
    ((start target).spread feeders).get i = true ↔
      Relation.ReflTransGen (Feeds feeders) i target := by
  obtain ⟨turns, _, hend⟩ := exists_turns feeders (start target)
  have hfinal := (frontier_start feeders target).iterate turns
  rw [hend] at hfinal
  constructor
  · exact hfinal.leads i
  · intro hleads
    induction hleads using Relation.ReflTransGen.head_induction_on with
    | refl => exact hfinal.marked
    | head hfeeds _ ih => exact hfinal.closed _ ih List.not_mem_nil _ hfeeds

end Marking

end Perimeter
