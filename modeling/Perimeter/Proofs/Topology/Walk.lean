import Mathlib.Data.List.Nodup
import Perimeter.Proofs.Topology.Marking
import Perimeter.Topology.Graph

/-!
Walks through the graph of zones: sequences of edges, each leaving the node at
which the one before it ends. The nodes that are found to reach a target are
those from which some walk ends there; rules play no part in this. They are found
by going against the edges, from node to feeder.
-/

namespace Perimeter

namespace Graph

/-- The edges lead from one node to another, one after the other. -/
inductive Walk (g : Graph) : Fin g.size → List (Edge g.size) → Fin g.size → Prop where
  | nil (i : Fin g.size) : Walk g i [] i
  | cons {i j : Fin g.size} {e : Edge g.size} {es : List (Edge g.size)}
      (hedge : e ∈ g.leaving i) (hrest : Walk g e.target es j) : Walk g i (e :: es) j

variable {g : Graph}

theorem Walk.single {i : Fin g.size} {e : Edge g.size} (h : e ∈ g.leaving i) :
    g.Walk i [e] e.target :=
  .cons h (.nil e.target)

theorem Walk.append {i j k : Fin g.size} {es fs : List (Edge g.size)}
    (h₁ : g.Walk i es j) (h₂ : g.Walk j fs k) : g.Walk i (es ++ fs) k := by
  induction h₁ with
  | nil => exact h₂
  | cons hedge _ ih => exact .cons hedge (ih h₂)

theorem Walk.snoc {i j : Fin g.size} {es : List (Edge g.size)} {e : Edge g.size}
    (h : g.Walk i es j) (hedge : e ∈ g.leaving j) : g.Walk i (es ++ [e]) e.target :=
  h.append (.single hedge)

/-- A walk ends where its last edge does. -/
theorem Walk.eq_target_of_snoc {i j : Fin g.size} {es : List (Edge g.size)} {e : Edge g.size}
    (h : g.Walk i (es ++ [e]) j) : j = e.target ∧ ∃ k, g.Walk i es k ∧ e ∈ g.leaving k := by
  induction es generalizing i with
  | nil =>
    cases h with
    | cons hedge hrest =>
      cases hrest
      exact ⟨rfl, i, .nil i, hedge⟩
  | cons f rest ih =>
    cases h with
    | cons hedge hrest =>
      obtain ⟨hend, k, hwalk, hlast⟩ := ih hrest
      exact ⟨hend, k, .cons hedge hwalk, hlast⟩

/-- The nodes of a walk in order, the one it starts from included. -/
def stops (g : Graph) (i : Fin g.size) (es : List (Edge g.size)) : List (Fin g.size) :=
  i :: es.map (·.target)

theorem stops_snoc (i : Fin g.size) (es : List (Edge g.size)) (e : Edge g.size) :
    g.stops i (es ++ [e]) = g.stops i es ++ [e.target] := by
  simp [stops]

/-- A walk goes on from each of its stops by a part of its edges. -/
theorem Walk.exists_suffix {i j : Fin g.size} {es : List (Edge g.size)} (h : g.Walk i es j)
    {k : Fin g.size} (hk : k ∈ g.stops i es) :
    ∃ fs, g.Walk k fs j ∧ g.stops k fs <:+ g.stops i es := by
  induction h with
  | nil i =>
    rw [List.mem_singleton.mp hk]
    exact ⟨[], .nil i, List.suffix_rfl⟩
  | @cons i j e rest hedge hrest ih =>
    rcases List.mem_cons.mp hk with rfl | hk
    · exact ⟨e :: rest, .cons hedge hrest, List.suffix_rfl⟩
    · obtain ⟨fs, hwalk, hsuffix⟩ := ih hk
      exact ⟨fs, hwalk, hsuffix.trans (List.suffix_cons i _)⟩

/-- Where a walk leads, one leads that comes to no node twice. The induction is
on the walk: an edge from a node that the shortened rest comes back to is left
out, with all that the rest does before. -/
theorem Walk.exists_nodup {i j : Fin g.size} {es : List (Edge g.size)} (h : g.Walk i es j) :
    ∃ fs, g.Walk i fs j ∧ (g.stops i fs).Nodup := by
  induction h with
  | nil i => exact ⟨[], .nil i, List.nodup_singleton i⟩
  | @cons i j e rest hedge _ ih =>
    obtain ⟨fs, hwalk, hnodup⟩ := ih
    by_cases hback : i ∈ g.stops e.target fs
    · obtain ⟨shorter, hshorter, hsuffix⟩ := hwalk.exists_suffix hback
      exact ⟨shorter, hshorter, hnodup.sublist hsuffix.sublist⟩
    · exact ⟨e :: fs, .cons hedge hwalk, List.nodup_cons.mpr ⟨hback, hnodup⟩⟩

theorem mem_addFeeder_iff {feeders : Vector (List (Fin g.size)) g.size} {i j k : Fin g.size}
    {e : Edge g.size} :
    k ∈ (addFeeder i feeders e).get j ↔ k ∈ feeders.get j ∨ (k = i ∧ e.target = j) := by
  unfold addFeeder
  by_cases hj : e.target = j
  · subst hj
    have hlist : (feeders.set e.target.val (feeders.get e.target ++ [i]) e.target.isLt).get e.target =
        feeders.get e.target ++ [i] := Vector.getElem_set_self e.target.isLt
    simp [hlist]
  · have hlist : (feeders.set e.target.val (feeders.get e.target ++ [i]) e.target.isLt).get j =
        feeders.get j := Vector.getElem_set_ne _ j.isLt fun hval => hj (Fin.ext hval)
    simp [hlist, hj]

theorem mem_foldl_addFeeder_iff {feeders : Vector (List (Fin g.size)) g.size} {i j k : Fin g.size}
    {es : List (Edge g.size)} :
    k ∈ (es.foldl (addFeeder i) feeders).get j ↔
      k ∈ feeders.get j ∨ (k = i ∧ ∃ e ∈ es, e.target = j) := by
  induction es generalizing feeders with
  | nil => simp
  | cons e rest ih =>
    rw [List.foldl_cons, ih, mem_addFeeder_iff, or_assoc, ← and_or_left]
    simp only [List.mem_cons, exists_eq_or_imp]

/-- The feeders of a node are the nodes with an edge into it. -/
theorem mem_feeders_iff {i j : Fin g.size} :
    i ∈ g.feeders.get j ↔ ∃ e ∈ g.leaving i, e.target = j := by
  have hall : ∀ (is : List (Fin g.size)) (feeders : Vector (List (Fin g.size)) g.size),
      i ∈ (is.foldl (fun feeders i => (g.leaving i).foldl (addFeeder i) feeders) feeders).get j ↔
        i ∈ feeders.get j ∨ (i ∈ is ∧ ∃ e ∈ g.leaving i, e.target = j) := by
    intro is
    induction is with
    | nil => simp
    | cons k rest ih =>
      intro feeders
      rw [List.foldl_cons, ih, mem_foldl_addFeeder_iff, List.mem_cons, or_assoc, or_and_right]
      by_cases hk : i = k
      · rw [hk]
      · simp [hk]
  have hnone : (Vector.replicate g.size ([] : List (Fin g.size))).get j = [] :=
    Vector.getElem_replicate j.isLt
  simp [feeders, hall, hnone]

/-- Steps from feeder to fed node are what walks are made of. -/
theorem leads_iff_walk {i j : Fin g.size} :
    Relation.ReflTransGen (Marking.Feeds g.feeders) i j ↔ ∃ es, g.Walk i es j := by
  constructor
  · intro hleads
    induction hleads using Relation.ReflTransGen.head_induction_on with
    | refl => exact ⟨[], .nil j⟩
    | head hfeeds _ ih =>
      obtain ⟨e, hedge, rfl⟩ := mem_feeders_iff.mp hfeeds
      obtain ⟨es, hwalk⟩ := ih
      exact ⟨e :: es, .cons hedge hwalk⟩
  · rintro ⟨es, hwalk⟩
    induction hwalk with
    | nil i => exact .refl
    | @cons i j e es hedge _ ih => exact .head (mem_feeders_iff.mpr ⟨e, hedge, rfl⟩) ih

theorem get_reachingMarks_iff {target i : Fin g.size} :
    (g.reachingMarks target).get i = true ↔ ∃ es, g.Walk i es target :=
  Marking.get_spread_start_iff.trans leads_iff_walk

/-- A node is found to reach a target exactly when some walk leads there. -/
theorem mem_nodesReaching_iff {target i : Fin g.size} :
    i ∈ g.nodesReaching target ↔ ∃ es, g.Walk i es target := by
  rw [nodesReaching, List.mem_filter, get_reachingMarks_iff]
  exact and_iff_right (List.mem_finRange i)

theorem Walk.mem_nodesReaching {i j : Fin g.size} {es : List (Edge g.size)} (h : g.Walk i es j) :
    i ∈ g.nodesReaching j :=
  mem_nodesReaching_iff.mpr ⟨es, h⟩

theorem mem_nodesReaching_self (i : Fin g.size) : i ∈ g.nodesReaching i :=
  (Walk.nil i).mem_nodesReaching

/-- The marking of the nodes that reach a target ends on every graph, whatever cycles,
loops and parallel edges it has: no more than one turn for each node empties the queue.
The marks are then those of the nodes from which a walk of zero or more edges leads to the
target, and the nodes listed are the marked ones, in order. -/
theorem reachingMarks_exact (g : Graph) (target : Fin g.size) :
    (∃ turns ≤ g.size, (Marking.turn g.feeders)^[turns] (.start target) =
      ⟨g.reachingMarks target, []⟩) ∧
      (∀ i, (g.reachingMarks target).get i = true ↔ ∃ es, g.Walk i es target) ∧
      (g.nodesReaching target).Pairwise (· < ·) ∧
      ∀ i, i ∈ g.nodesReaching target ↔ (g.reachingMarks target).get i = true := by
  refine ⟨?_, fun i => get_reachingMarks_iff, ?_, fun i => ?_⟩
  · obtain ⟨turns, hle, hend⟩ := Marking.exists_turns g.feeders (.start target)
    exact ⟨turns, Nat.le_trans hle (Marking.turnsLeft_start_le target), hend⟩
  · exact (List.pairwise_lt_finRange g.size).filter _
  · rw [mem_nodesReaching_iff, get_reachingMarks_iff]

end Graph

end Perimeter
