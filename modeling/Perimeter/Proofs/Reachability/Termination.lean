import Perimeter.Proofs.Reachability.Relay

/-!
Why searches end. A search queues a visit only with services that its node has
not seen, so what the node has seen grows: a port is gained, by a protocol or by
the rest. There are only so many ports to gain; between two gains the queue gets
shorter, and while one visit is followed its edges get fewer. An offer of one
pair of protocol and port can be gained only once at each node.
-/

namespace Perimeter

/-- A sum is at most its greatest term for each item. -/
theorem sumOver_le_length_mul {α : Type} {f : α → Nat} {l : List α} {bound : Nat}
    (h : ∀ x ∈ l, f x ≤ bound) : sumOver f l ≤ l.length * bound := by
  induction l with
  | nil => exact Nat.zero_le _
  | cons x rest ih =>
    have hfirst := h x List.mem_cons_self
    have hrest := ih fun y hy => h y (List.mem_cons_of_mem x hy)
    rw [sumOver, List.length_cons, Nat.succ_mul]
    omega

namespace ServiceSet

/-- Nothing is lost from one set to the next, and a port is gained: by a
protocol, or by the rest that stands for all protocols not listed. -/
structure GrowsTo (s t : ServiceSet) : Prop where
  rest : ∀ n ∈ s.rest, n ∈ t.rest
  ports : ∀ p, ∀ n ∈ s.portsFor p, n ∈ t.portsFor p
  gain : (∃ n ∈ t.rest, n ∉ s.rest) ∨ ∃ p, ∃ n ∈ t.portsFor p, n ∉ s.portsFor p

/-- A union with a set that is no subset is larger. -/
theorem growsTo_union {s t : ServiceSet} (h : ¬t.isSubset s = true) : s.GrowsTo (s.union t) := by
  have hports : ∀ p n, n ∈ (s.union t).portsFor p ↔ n ∈ s.portsFor p ∨ n ∈ t.portsFor p := by
    intro p n
    rw [portsFor_union, IntervalSet.mem_union]
  refine ⟨fun n hn => IntervalSet.mem_union.mpr (Or.inl hn),
    fun p n hn => (hports p n).mpr (Or.inl hn), ?_⟩
  rw [isSubset_iff_forall_portsFor, not_and_or, not_forall] at h
  rcases h with hrest | ⟨p, hp⟩
  · rw [IntervalSet.isSubset_iff] at hrest
    push Not at hrest
    obtain ⟨n, hin, hnew⟩ := hrest
    exact Or.inl ⟨n, IntervalSet.mem_union.mpr (Or.inr hin), hnew⟩
  · rw [IntervalSet.isSubset_iff] at hp
    push Not at hp
    obtain ⟨n, hin, hnew⟩ := hp
    exact Or.inr ⟨p, n, (hports p n).mpr (Or.inr hin), hnew⟩

/-- A set leaves at most every port of the rest and of each protocol uncovered. -/
theorem uncovered_le (s : ServiceSet) : s.uncovered ≤ 257 * (lastPort + 1) := by
  have hports : ∀ ports : PortSet, ports.uncovered ≤ lastPort + 1 := by
    intro ports
    calc ports.uncovered ≤ (List.range (lastPort + 1)).length := List.countP_le_length
      _ = lastPort + 1 := List.length_range
  have hall := sumOver_le_length_mul (l := Protocol.all) fun p _ => hports (s.portsFor p)
  have hlength : Protocol.all.length = 256 := by simp [Protocol.all]
  have hrest := hports s.rest
  rw [hlength] at hall
  unfold uncovered
  omega

end ServiceSet

theorem Explored.uncovered_le {n : Nat} (x : Explored n) :
    x.uncovered ≤ n * (257 * (lastPort + 1)) := by
  have hall := sumOver_le_length_mul (l := List.finRange n) fun i _ => (x.seen i).uncovered_le
  rwa [List.length_finRange] at hall

namespace Search

variable {g : Graph} {task : Task g} {source : Fin g.size} {offered : ServiceSet}
  {m m' : Moment g} {w : Visit g} {visits : List (Visit g)}

/-- What gets smaller with every advance, the first part before the others:
ports that nodes have not seen, visits queued, edges of the present visit. -/
def Moment.rank (m : Moment g) : Nat × Nat × Nat :=
  (m.explored.uncovered, m.queue.length, m.edges.length)

theorem Advance.rank_lt (h : Advance task m m') :
    Prod.Lex (· < ·) (Prod.Lex (· < ·) (· < ·)) m'.rank m.rank := by
  cases h with
  | cutOff _ => exact .right _ (.right _ (Nat.lt_succ_self _))
  | refused _ _ => exact .right _ (.right _ (Nat.lt_succ_self _))
  | repeated _ _ _ _ => exact .right _ (.right _ (Nat.lt_succ_self _))
  | fresh _ _ _ hnew => exact .left _ _ (Explored.uncovered_add_lt hnew)
  | turn => exact .right _ (.left _ _ (Nat.lt_succ_self _))

/-- No search advances for ever, wherever it stands. -/
theorem wellFounded_advance (task : Task g) :
    WellFounded fun later m : Moment g => Advance task m later :=
  Subrelation.wf Advance.rank_lt
    (InvImage.wf Moment.rank (Prod.lex Nat.lt_wfRel (Prod.lex Nat.lt_wfRel Nat.lt_wfRel)).wf)

/-- A search goes on exactly as long as it has no outcome. -/
theorem exists_advance_iff (task : Task g) (m : Moment g) :
    (∃ m', Advance task m m') ↔ ¬∃ outcome, Final task m outcome := by
  constructor
  · rintro ⟨m', hstep⟩ ⟨outcome, hfinal⟩
    exact hfinal.not_advance hstep
  · intro hopen
    obtain ⟨v, edges, queue, explored, denial⟩ := m
    cases edges with
    | nil =>
      cases queue with
      | nil =>
        cases denial with
        | none => exact absurd ⟨_, .exhausted⟩ hopen
        | some d => exact absurd ⟨_, .denied⟩ hopen
      | cons w queue => exact ⟨_, .turn⟩
    | cons e rest =>
      by_cases hreach : e.target ∈ task.reaching
      · by_cases hempty : (v.along task e).services.isEmpty = true
        · exact ⟨_, .refused hreach hempty⟩
        · by_cases hthere : e.target = task.destination
          · exact absurd ⟨_, .arrived hreach hempty hthere⟩ hopen
          · by_cases hseen : (v.along task e).services.isSubset (explored.seen e.target) = true
            · exact ⟨_, .repeated hreach hempty hthere hseen⟩
            · exact ⟨_, .fresh hreach hempty hthere hseen⟩
      · exact ⟨_, .cutOff hreach⟩

/-- An advance that queues a visit. -/
def Queues (task : Task g) (m m' : Moment g) (w : Visit g) : Prop :=
  Advance task m m' ∧ m'.queue = m.queue ++ [w]

/-- A visit is queued with services that its node has not seen, and the node
has seen them from then on. -/
theorem Queues.fresh (h : Queues task m m' w) :
    ∃ e ∈ m.edges.head?, w = m.visit.along task e ∧
      ¬w.services.isSubset (m.explored.seen w.node) = true ∧
      m'.explored = m.explored.add w.node w.services := by
  obtain ⟨hstep, hqueue⟩ := h
  cases hstep with
  | cutOff _ => simp at hqueue
  | refused _ _ => simp at hqueue
  | repeated _ _ _ _ => simp at hqueue
  | @fresh v e es queue explored denial hreach hsome hother hnew =>
    obtain rfl : v.along task e = w := List.singleton_inj.mp (List.append_cancel_left hqueue)
    exact ⟨e, rfl, rfl, hnew, rfl⟩
  | turn =>
    have hlength := congrArg List.length hqueue
    simp only [List.length_append, List.length_cons, List.length_nil] at hlength
    omega

theorem Advance.explored_eq_or_queues (h : Advance task m m') :
    m'.explored = m.explored ∨ ∃ w, Queues task m m' w := by
  cases h with
  | fresh hreach hsome hother hnew =>
    exact Or.inr ⟨_, .fresh hreach hsome hother hnew, rfl⟩
  | _ => exact Or.inl rfl

/-- Queueing a visit makes what its node has seen grow, and no other node's. -/
theorem Queues.growsTo (h : Queues task m m' w) :
    (m.explored.seen w.node).GrowsTo (m'.explored.seen w.node) ∧
      ∀ i, i ≠ w.node → m'.explored.seen i = m.explored.seen i := by
  obtain ⟨_, _, _, hnew, hexplored⟩ := h.fresh
  rw [hexplored]
  refine ⟨?_, fun i hi => Explored.seen_add_of_ne (Ne.symm hi)⟩
  rw [Explored.seen_add_self]
  exact ServiceSet.growsTo_union hnew

/-- In the search for a specific offer, some offered pair is new to the node. -/
theorem Queues.exists_new (hoffered : offered.Specific) (hbacked : m.Backed task source offered)
    (h : Queues task m m' w) :
    ∃ p port, offered.contains p port = true ∧
      (m'.explored.seen w.node).contains p port = true ∧
      ¬(m.explored.seen w.node).contains p port = true := by
  obtain ⟨e, _, rfl, hnew, hexplored⟩ := h.fresh
  obtain ⟨walked, hvisit⟩ := hbacked.visit
  rw [(hvisit.specific_along hoffered e).isSubset_iff] at hnew
  push Not at hnew
  obtain ⟨p, port, hin, hunseen⟩ := hnew
  have hcarried := hvisit.services_along e ▸ hin
  refine ⟨p, port, ((contains_carried_iff task.ends offered _ p port).mp hcarried).1, ?_, hunseen⟩
  rw [hexplored]
  exact (Explored.contains_seen_add _ _ _ _ p port).mpr (Or.inr ⟨rfl, hin⟩)

/-- In the search for one pair of protocol and port, that pair is what is new. -/
theorem Queues.new_of_ofFlow {protocol : Protocol} {port : UInt16}
    (h : Queues task m m' w)
    (hruns : Runs task (opening g source (.ofFlow protocol (some port))) m) :
    ¬(m.explored.seen w.node).contains protocol port = true ∧
      (m'.explored.seen w.node).contains protocol port = true := by
  have hspecific := ServiceSet.specific_ofFlow protocol (some port)
  obtain ⟨p, n, hin, hnow, hbefore⟩ := h.exists_new hspecific (Runs.backed hspecific hruns)
  obtain ⟨rfl, rfl⟩ := ServiceSet.contains_ofFlow_port.mp hin
  exact ⟨hbefore, hnow⟩

/-- The visits that a search has queued on its course to a moment, first to
last. The visit of the source is the first. -/
inductive Queued (task : Task g) (source : Fin g.size) (offered : ServiceSet) :
    List (Visit g) → Moment g → Prop where
  | start : Queued task source offered [⟨source, offered, []⟩] (opening g source offered)
  | queues {visits : List (Visit g)} {m m' : Moment g} {w : Visit g}
      (hqueued : Queued task source offered visits m) (hqueues : Queues task m m' w) :
      Queued task source offered (visits ++ [w]) m'
  | passes {visits : List (Visit g)} {m m' : Moment g}
      (hqueued : Queued task source offered visits m) (hstep : Advance task m m')
      (hnone : ¬∃ w, Queues task m m' w) : Queued task source offered visits m'

theorem Runs.exists_queued (h : Runs task (opening g source offered) m) :
    ∃ visits, Queued task source offered visits m := by
  induction h with
  | refl => exact ⟨_, .start⟩
  | @tail m m' _ hstep ih =>
    obtain ⟨visits, hqueued⟩ := ih
    by_cases hqueues : ∃ w, Queues task m m' w
    · obtain ⟨w, hw⟩ := hqueues
      exact ⟨visits ++ [w], hqueued.queues hw⟩
    · exact ⟨visits, hqueued.passes hstep hqueues⟩

theorem Queued.runs (h : Queued task source offered visits m) :
    Runs task (opening g source offered) m := by
  induction h with
  | start => exact .refl
  | queues _ hqueues ih => exact ih.tail hqueues.1
  | passes _ hstep _ ih => exact ih.tail hstep

/-- Each visit after the first has taken at least one port from those left. -/
theorem Queued.length_add_uncovered_le (h : Queued task source offered visits m) :
    visits.length + m.explored.uncovered ≤
      1 + (opening g source offered).explored.uncovered := by
  induction h with
  | start => exact Nat.le_refl _
  | @queues visits m m' w _ hqueues ih =>
    obtain ⟨_, _, _, hnew, hexplored⟩ := hqueues.fresh
    have hless := Explored.uncovered_add_lt hnew
    rw [List.length_append, List.length_singleton, hexplored]
    omega
  | passes _ hstep hnone ih =>
    rw [hstep.explored_eq_or_queues.resolve_right hnone]
    exact ih

/-- Every visit has shown its node the pair that is offered alone. -/
theorem Queued.seen {protocol : Protocol} {port : UInt16}
    (h : Queued task source (.ofFlow protocol (some port)) visits m) :
    ∀ w ∈ visits, (m.explored.seen w.node).contains protocol port = true := by
  induction h with
  | start =>
    intro w hw
    rw [List.mem_singleton.mp hw]
    exact (Explored.contains_seen_add _ _ _ _ protocol port).mpr
      (Or.inr ⟨rfl, ServiceSet.contains_ofFlow_port.mpr ⟨rfl, rfl⟩⟩)
  | @queues visits m m' w hqueued hqueues ih =>
    intro v hv
    rcases List.mem_append.mp hv with hold | hlast
    · exact Runs.has_seen (cargo_contains protocol port) (.single hqueues.1) (ih v hold)
    · rw [List.mem_singleton.mp hlast]
      exact (hqueues.new_of_ofFlow hqueued.runs).2
  | passes _ hstep hnone ih =>
    rw [hstep.explored_eq_or_queues.resolve_right hnone]
    exact ih

/-- The nodes of the visits have seen a pair that is offered alone, so none of
them can be queued with it again. -/
theorem Queued.nodup {protocol : Protocol} {port : UInt16}
    (h : Queued task source (.ofFlow protocol (some port)) visits m) :
    (visits.map (·.node)).Nodup := by
  induction h with
  | start => exact List.nodup_singleton _
  | @queues visits m m' w hqueued hqueues ih =>
    rw [List.map_append, List.nodup_append]
    refine ⟨ih, List.nodup_singleton _, ?_⟩
    rintro i hi j hj rfl
    obtain ⟨v, hv, rfl⟩ := List.mem_map.mp hi
    rw [List.map_singleton, List.mem_singleton] at hj
    exact (hqueues.new_of_ofFlow hqueued.runs).1 (hj ▸ hqueued.seen v hv)
  | passes _ _ _ ih => exact ih

end Search

namespace Graph

/-- Every search ends, whatever the graph, the nodes and the offer are. It
advances in one way until it has its outcome, and cannot do so for ever; if its
source can lead to the destination, that is the outcome of the search. The loop
turns to the visits to which this course turns, with the same queue, and leaves
the queue to which the advances lead. They queue a bounded number of visits,
because each makes what its node has seen grow, and an offer of one pair of
protocol and port brings them to no node twice. -/
theorem search_terminates (g : Graph) (source destination : Fin g.size) (ends : Ends)
    (offered : ServiceSet) :
    let task := Search.Task.toward g destination ends
    let opening := Search.opening g source offered
    WellFounded (fun later m : Search.Moment g => Search.Advance task m later) ∧
      (∀ m, (∃ m', Search.Advance task m m') ↔ ¬∃ outcome, Search.Final task m outcome) ∧
      (∀ m m₁ m₂, Search.Advance task m m₁ → Search.Advance task m m₂ → m₁ = m₂) ∧
      (source ∈ g.nodesReaching destination →
        (∀ outcome, g.search source destination ends offered = outcome ↔
          ∃ m, Search.Runs task opening m ∧ Search.Final task m outcome) ∧
        ∀ explored denial queue, Search.Loops task source offered explored denial queue →
          Search.run task explored denial queue = g.search source destination ends offered) ∧
      (source ∉ g.nodesReaching destination →
        g.search source destination ends offered = .noPath) ∧
      (∀ v ahead explored denial, Search.Loops task source offered explored denial (v :: ahead) →
        Search.Runs task opening ⟨v, g.leaving v.node, ahead, explored, denial⟩ ∧
          Search.Leads task ⟨v, g.leaving v.node, ahead, explored, denial⟩
            (Search.follow task v explored denial (g.leaving v.node))) ∧
      (∀ m, Search.Runs task opening m →
        ∃ visits, Search.Queued task source offered visits m ∧
          visits.length ≤ 1 + g.size * (257 * (lastPort + 1))) ∧
      (∀ m m' w, Search.Runs task opening m → Search.Queues task m m' w →
        (m.explored.seen w.node).GrowsTo (m'.explored.seen w.node) ∧
          (∀ i, i ≠ w.node → m'.explored.seen i = m.explored.seen i) ∧
          (offered.Specific → ∃ p port, offered.contains p port = true ∧
            (m'.explored.seen w.node).contains p port = true ∧
            ¬(m.explored.seen w.node).contains p port = true)) ∧
      ∀ protocol port, offered = .ofFlow protocol (some port) →
        ∀ visits m, Search.Queued task source offered visits m →
          (visits.map (·.node)).Nodup := by
  intro task opening
  refine ⟨Search.wellFounded_advance task, Search.exists_advance_iff task,
    fun _ _ _ => Search.Advance.unique, ?_, search_of_not_mem ends offered, ?_, ?_, ?_, ?_⟩
  · intro hreach
    exact ⟨fun _ => search_eq_iff hreach, fun _ _ _ => run_eq_search hreach⟩
  · intro v ahead explored denial hloop
    exact ⟨hloop.runs, Search.follow_leads task v _ ahead explored denial⟩
  · intro m hruns
    obtain ⟨visits, hqueued⟩ := hruns.exists_queued
    have hbound := hqueued.length_add_uncovered_le
    have htotal := (Search.opening g source offered).explored.uncovered_le
    exact ⟨visits, hqueued, by omega⟩
  · intro m m' w hruns hqueues
    obtain ⟨hgrows, hothers⟩ := hqueues.growsTo
    refine ⟨hgrows, hothers, ?_⟩
    intro hspecific
    exact hqueues.exists_new hspecific (Search.Runs.backed hspecific hruns)
  · rintro protocol port rfl visits m hqueued
    exact hqueued.nodup

end Graph

end Perimeter
