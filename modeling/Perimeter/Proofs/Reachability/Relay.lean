import Perimeter.Proofs.Reachability.Trail

/-!
How a search passes things on. A cargo is a property of service sets, such as
holding one given pair, that a union has when either part does and that an empty
set lacks. When a cargo has been brought to a node, then over every edge that it
crosses the edge is still to be followed with it, or it has been brought to the
node behind. So once nothing is left to be followed, the nodes with the cargo
are closed under the edges that it crosses, and it cannot have missed a walk to
the destination.
-/

namespace Perimeter

namespace ServiceSet

/-- Some pair of protocol and port is in the set. -/
def HasPair (s : ServiceSet) : Prop := ∃ p port, s.contains p port = true

theorem hasPair_ofFlow (p : Protocol) (port? : Option UInt16) : (ofFlow p port?).HasPair := by
  cases port? with
  | none => exact ⟨p, 0, by simp [ofFlow]⟩
  | some port =>
    have hport : port.toNat ≤ lastPort := Nat.le_of_lt_succ port.toNat_lt
    exact ⟨p, port, by simp [ofFlow, hport]⟩

end ServiceSet

namespace Search

/-- A property that service sets have by some of their pairs. -/
structure Cargo (has : ServiceSet → Prop) : Prop where
  union_iff : ∀ s t, has (s.union t) ↔ has s ∨ has t
  not_of_isEmpty : ∀ s, s.isEmpty = true → ¬has s
  of_isSubset : ∀ s t, s.isSubset t = true → has s → has t

theorem cargo_contains (p : Protocol) (port : UInt16) :
    Cargo fun s => s.contains p port = true where
  union_iff _ _ := ServiceSet.contains_union
  not_of_isEmpty _ hempty := by simp [ServiceSet.not_contains_of_isEmpty hempty]
  of_isSubset _ _ hsubset hin := (ServiceSet.isSubset_iff.mp hsubset).2 p port hin

theorem cargo_hasPair : Cargo ServiceSet.HasPair where
  union_iff s t := by simp [ServiceSet.HasPair, exists_or]
  not_of_isEmpty := by
    rintro s hempty ⟨p, port, hin⟩
    rw [ServiceSet.not_contains_of_isEmpty hempty] at hin
    cases hin
  of_isSubset := by
    rintro s t hsubset ⟨p, port, hin⟩
    exact ⟨p, port, (ServiceSet.isSubset_iff.mp hsubset).2 p port hin⟩

variable {g : Graph} {task : Task g} {has : ServiceSet → Prop} {crosses : Edge g.size → Prop}

theorem Cargo.seen_add_iff (hcargo : Cargo has) {n : Nat} (x : Explored n) (i j : Fin n)
    (s : ServiceSet) : has ((x.add i s).seen j) ↔ has (x.seen j) ∨ (j = i ∧ has s) :=
  x.seen_add_iff has hcargo.union_iff i j s

/-- The cargo will still be followed over an edge that leaves a node. -/
def Moment.Awaits (m : Moment g) (has : ServiceSet → Prop) (i : Fin g.size) (e : Edge g.size) :
    Prop :=
  (∃ w ∈ m.queue, w.node = i ∧ has w.services) ∨
    (m.visit.node = i ∧ has m.visit.services ∧ e ∈ m.edges)

/-- Over every edge that the cargo crosses from a node to which it was brought,
it has been brought on to a node other than the destination, or it will be. -/
def Moment.Relays (m : Moment g) (task : Task g) (has : ServiceSet → Prop)
    (crosses : Edge g.size → Prop) : Prop :=
  ∀ i, has (m.explored.seen i) → ∀ e ∈ g.leaving i, e.target ∈ task.reaching → crosses e →
    m.Awaits has i e ∨ (e.target ≠ task.destination ∧ has (m.explored.seen e.target))

theorem relays_opening (hcargo : Cargo has) (task : Task g) (crosses : Edge g.size → Prop)
    (source : Fin g.size) (offered : ServiceSet) :
    (opening g source offered).Relays task has crosses := by
  intro i hseen e hedge hreach hcrosses
  rcases (hcargo.seen_add_iff _ source i offered).mp hseen with hnone | ⟨rfl, hin⟩
  · have hempty : (Explored.nothing g.size).seen i = .empty := Vector.getElem_replicate i.isLt
    rw [hempty] at hnone
    exact absurd hnone (hcargo.not_of_isEmpty .empty (by decide))
  · exact Or.inl (Or.inr ⟨rfl, hin, hedge⟩)

/-- Dealing with one edge keeps the cargo passed on, if it has been brought over
that edge and visits of nodes that are new to it are queued. -/
theorem Moment.Relays.pass {v : Visit g} {e : Edge g.size} {es : List (Edge g.size)}
    {queue queue' : List (Visit g)} {explored explored' : Explored g.size}
    {denial denial' : Option Denial}
    (h : Moment.Relays ⟨v, e :: es, queue, explored, denial⟩ task has crosses)
    (hqueue : ∀ w ∈ queue, w ∈ queue')
    (hkeep : ∀ i, has (explored.seen i) → has (explored'.seen i))
    (hnew : ∀ i, has (explored'.seen i) →
      has (explored.seen i) ∨ ∃ w ∈ queue', w.node = i ∧ has w.services)
    (hpassed : e.target ∈ task.reaching → has v.services → crosses e →
      e.target ≠ task.destination ∧ has (explored'.seen e.target)) :
    Moment.Relays ⟨v, es, queue', explored', denial'⟩ task has crosses := by
  intro i hseen f hedge hreach hcrosses
  rcases hnew i hseen with hold | hqueued
  · rcases h i hold f hedge hreach hcrosses with (hwaiting | ⟨hnode, hin, hmem⟩) | ⟨hother, hdone⟩
    · obtain ⟨w, hw, hwithin⟩ := hwaiting
      exact Or.inl (Or.inl ⟨w, hqueue w hw, hwithin⟩)
    · rcases List.mem_cons.mp hmem with rfl | hlater
      · exact Or.inr (hpassed hreach hin hcrosses)
      · exact Or.inl (Or.inr ⟨hnode, hin, hlater⟩)
    · exact Or.inr ⟨hother, hkeep _ hdone⟩
  · exact Or.inl (Or.inl hqueued)

/-- An advance keeps the cargo passed on, if it gets over the edge dealt with. -/
theorem Moment.Relays.advance {m m' : Moment g} (hcargo : Cargo has)
    (h : m.Relays task has crosses) (hstep : Advance task m m')
    (hover : ∀ e ∈ m.edges.head?, e.target ∈ task.reaching → has m.visit.services → crosses e →
      has (m.visit.along task e).services) :
    m'.Relays task has crosses := by
  cases hstep with
  | cutOff hreach =>
    exact h.pass (fun w hw => hw) (fun i hi => hi) (fun i hi => Or.inl hi)
      (fun hreach' => absurd hreach' hreach)
  | @refused v e es queue explored denial hreach hempty =>
    apply h.pass (fun w hw => hw) (fun i hi => hi) (fun i hi => Or.inl hi)
    intro _ hin hcrosses
    exact absurd (hover e rfl hreach hin hcrosses) (hcargo.not_of_isEmpty _ hempty)
  | @repeated v e es queue explored denial hreach hsome hother hseen =>
    apply h.pass (fun w hw => hw) (fun i hi => hi) (fun i hi => Or.inl hi)
    intro _ hin hcrosses
    exact ⟨hother, hcargo.of_isSubset _ _ hseen (hover e rfl hreach hin hcrosses)⟩
  | @fresh v e es queue explored denial hreach hsome hother hnew =>
    apply h.pass
    · intro w hw
      exact List.mem_append_left _ hw
    · intro i hi
      exact (hcargo.seen_add_iff _ _ i _).mpr (Or.inl hi)
    · intro i hi
      rcases (hcargo.seen_add_iff _ _ i _).mp hi with hold | ⟨hnode, hin⟩
      · exact Or.inl hold
      · exact Or.inr ⟨v.along task e, by simp, hnode.symm, hin⟩
    · intro _ hin hcrosses
      have hthere := hover e rfl hreach hin hcrosses
      exact ⟨hother, (hcargo.seen_add_iff _ _ _ _).mpr (Or.inr ⟨rfl, hthere⟩)⟩
  | @turn v w queue explored denial =>
    intro i hseen e hedge hreach hcrosses
    rcases h i hseen e hedge hreach hcrosses with (⟨u, hu, hnode, hin⟩ | ⟨_, _, hmem⟩) | hdone
    · rcases List.mem_cons.mp hu with rfl | hlater
      · exact Or.inl (Or.inr ⟨hnode, hin, hnode ▸ hedge⟩)
      · exact Or.inl (Or.inl ⟨u, hlater, hnode, hin⟩)
    · cases hmem
    · exact Or.inr hdone

/-- Nodes never lose what has been brought to them. -/
theorem Runs.has_seen {m m' : Moment g} (hcargo : Cargo has) (hruns : Runs task m m')
    {i : Fin g.size} (h : has (m.explored.seen i)) : has (m'.explored.seen i) := by
  induction hruns with
  | refl => exact h
  | tail _ hstep ih =>
    cases hstep with
    | fresh => exact (hcargo.seen_add_iff _ _ i _).mpr (Or.inl ih)
    | _ => exact ih

/-- Once nothing is left to be followed, no node with the cargo starts a walk to
the destination over edges that the cargo crosses. -/
theorem Moment.Relays.no_walk {m : Moment g} {ends : Ends} {destination : Fin g.size}
    (h : m.Relays (.toward g destination ends) has crosses) (hedges : m.edges = [])
    (hqueue : m.queue = []) {i : Fin g.size} {es : List (Edge g.size)}
    (hwalk : g.Walk i es destination) (hne : i ≠ destination) (hseen : has (m.explored.seen i))
    (hcrosses : ∀ e ∈ es, crosses e) : False := by
  induction es generalizing i with
  | nil =>
    cases hwalk
    exact hne rfl
  | cons e rest ih =>
    cases hwalk with
    | cons hedge hrest =>
      have hreach : e.target ∈ g.nodesReaching destination := hrest.mem_nodesReaching
      rcases h i hseen e hedge hreach (hcrosses e List.mem_cons_self) with
        (⟨w, hw, _⟩ | ⟨_, _, hmem⟩) | ⟨hother, hdone⟩
      · rw [hqueue] at hw
        cases hw
      · rw [hedges] at hmem
        cases hmem
      · exact ih hrest hother hdone fun f hf => hcrosses f (List.mem_cons_of_mem _ hf)

end Search

end Perimeter
