import Perimeter.Proofs.Reachability.Course
import Perimeter.Proofs.Reachability.Passage

/-!
Where visits come from. Each visit of a search stands at the end of a walk from
the source; it carries what is left of the offer after that walk, its trail
holds the hops of the walk, and the walk stops nowhere twice. The last point
needs the explored services: a visit only narrows what its earlier stops have
seen, so coming back to one of them brings nothing new.
-/

namespace Perimeter

/-- A property that a union has when either part does is found at the node to
which services with it are brought, and wherever it was before. -/
theorem Explored.seen_add_iff (has : ServiceSet → Prop)
    (hunion : ∀ s t, has (s.union t) ↔ has s ∨ has t) {n : Nat} (x : Explored n) (i j : Fin n)
    (s : ServiceSet) : has ((x.add i s).seen j) ↔ has (x.seen j) ∨ (j = i ∧ has s) := by
  by_cases h : i = j
  · subst h
    rw [Explored.seen_add_self, hunion]
    simp
  · rw [Explored.seen_add_of_ne h]
    simp [Ne.symm h]

theorem Explored.contains_seen_add {n : Nat} (x : Explored n) (i j : Fin n) (s : ServiceSet)
    (p : Protocol) (port : UInt16) :
    ((x.add i s).seen j).contains p port = true ↔
      (x.seen j).contains p port = true ∨ (j = i ∧ s.contains p port = true) :=
  x.seen_add_iff (fun t => t.contains p port = true) (fun _ _ => ServiceSet.contains_union) i j s

namespace Search

variable {g : Graph} {task : Task g} {source : Fin g.size} {offered : ServiceSet}

/-- A visit stands at the end of a walk without repeated stops, with the
services and the hops of that walk, and every stop has seen its services. -/
structure Visit.BackedBy (v : Visit g) (ends : Ends) (source : Fin g.size) (offered : ServiceSet)
    (explored : Explored g.size) (es : List (Edge g.size)) : Prop where
  walk : g.Walk source es v.node
  services : v.services = carried ends offered es
  trail : v.trail.reverse = g.hops ends source offered es
  nodup : (g.stops source es).Nodup
  seen : ∀ i ∈ g.stops source es, ∀ p port,
    v.services.contains p port = true → (explored.seen i).contains p port = true

/-- The trail after one more edge is that of the longer walk. -/
theorem Visit.BackedBy.trail_along {v : Visit g} {explored : Explored g.size}
    {es : List (Edge g.size)} (h : v.BackedBy task.ends source offered explored es)
    (e : Edge g.size) :
    (v.along task e).trail.reverse = g.hops task.ends source offered (es ++ [e]) := by
  rw [Graph.hops_snoc h.walk, ← h.trail, ← h.services]
  exact List.reverse_cons

theorem Visit.BackedBy.services_along {v : Visit g} {explored : Explored g.size}
    {es : List (Edge g.size)} (h : v.BackedBy task.ends source offered explored es)
    (e : Edge g.size) : (v.along task e).services = carried task.ends offered (es ++ [e]) := by
  rw [carried_snoc, ← h.services]
  rfl

theorem Visit.BackedBy.specific_along {v : Visit g} {explored : Explored g.size}
    {es : List (Edge g.size)} (hoffered : offered.Specific)
    (h : v.BackedBy task.ends source offered explored es) (e : Edge g.size) :
    (v.along task e).services.Specific := by
  rw [h.services_along]
  exact specific_carried task.ends hoffered _

/-- What gets through one more edge had arrived at it. -/
theorem Visit.contains_along {v : Visit g} {e : Edge g.size} {p : Protocol} {port : UInt16} :
    (v.along task e).services.contains p port = true ↔
      v.services.contains p port = true ∧ e.kind.Admits (task.ends.flow p port) :=
  e.kind.contains_passed_iff task.ends v.services p port

theorem Visit.BackedBy.add {v : Visit g} {explored : Explored g.size} {es : List (Edge g.size)}
    (h : v.BackedBy task.ends source offered explored es) (i : Fin g.size) (s : ServiceSet) :
    v.BackedBy task.ends source offered (explored.add i s) es where
  walk := h.walk
  services := h.services
  trail := h.trail
  nodup := h.nodup
  seen := by
    intro j hj p port hcontains
    exact (explored.contains_seen_add i j s p port).mpr (Or.inl (h.seen j hj p port hcontains))

/-- A fresh visit is backed by its walk: if its node were an earlier stop, that
stop would have seen all it brings. -/
theorem Visit.BackedBy.along {v : Visit g} {explored : Explored g.size} {es : List (Edge g.size)}
    (hoffered : offered.Specific) (h : v.BackedBy task.ends source offered explored es)
    {e : Edge g.size} (hedge : e ∈ g.leaving v.node)
    (hnew : ¬(v.along task e).services.isSubset (explored.seen e.target) = true) :
    (v.along task e).BackedBy task.ends source offered
      (explored.add e.target (v.along task e).services) (es ++ [e]) := by
  have hspecific := h.specific_along hoffered e
  have hseen : ∀ i ∈ g.stops source es, ∀ p port,
      (v.along task e).services.contains p port = true →
        (explored.seen i).contains p port = true := by
    intro i hi p port hcontains
    exact h.seen i hi p port (Visit.contains_along.mp hcontains).1
  have hfirst : e.target ∉ g.stops source es := by
    intro hmem
    exact hnew ((hspecific.isSubset_iff _).mpr (hseen e.target hmem))
  refine ⟨h.walk.snoc hedge, h.services_along e, h.trail_along e, ?_, ?_⟩
  · rw [Graph.stops_snoc, List.nodup_append]
    refine ⟨h.nodup, by simp, ?_⟩
    rintro i hi j hj rfl
    rw [List.mem_singleton] at hj
    exact hfirst (hj ▸ hi)
  · intro i hi p port hcontains
    rw [Graph.stops_snoc, List.mem_append, List.mem_singleton] at hi
    apply (explored.contains_seen_add _ i _ p port).mpr
    rcases hi with hi | hi
    · exact Or.inl (hseen i hi p port hcontains)
    · exact Or.inr ⟨hi, hcontains⟩

/-- A denial lies at the end of a walk whose stops before its last edge are
distinct, at a node that reaches the destination, and nothing is left there. -/
structure Denial.BackedBy (d : Denial) (task : Task g) (source : Fin g.size)
    (offered : ServiceSet) (es : List (Edge g.size)) (e : Edge g.size) : Prop where
  walk : g.Walk source (es ++ [e]) e.target
  path : d.path = g.hops task.ends source offered (es ++ [e])
  nodup : (g.stops source es).Nodup
  reaching : e.target ∈ task.reaching
  nothing : (carried task.ends offered (es ++ [e])).isEmpty = true

theorem Visit.BackedBy.refusal {v : Visit g} {explored : Explored g.size}
    {es : List (Edge g.size)} (h : v.BackedBy task.ends source offered explored es)
    {e : Edge g.size} (hedge : e ∈ g.leaving v.node) (hreach : e.target ∈ task.reaching)
    (hempty : (v.along task e).services.isEmpty = true) {d : Denial}
    (hd : v.refusal? task e = some d) : d.BackedBy task source offered es e := by
  obtain ⟨reason, _, rfl⟩ := Option.map_eq_some_iff.mp hd
  refine ⟨h.walk.snoc hedge, h.trail_along e, h.nodup, hreach, ?_⟩
  rw [← h.services_along]
  exact hempty

/-- Everything that a moment holds is backed by walks. -/
structure Moment.Backed (m : Moment g) (task : Task g) (source : Fin g.size)
    (offered : ServiceSet) : Prop where
  visit : ∃ es, m.visit.BackedBy task.ends source offered m.explored es
  edges : ∀ e ∈ m.edges, e ∈ g.leaving m.visit.node
  queue : ∀ w ∈ m.queue, ∃ es, w.BackedBy task.ends source offered m.explored es
  denial : ∀ d, m.denial = some d → ∃ es e, d.BackedBy task source offered es e

theorem backed_opening (task : Task g) (source : Fin g.size) (offered : ServiceSet) :
    (opening g source offered).Backed task source offered := by
  refine ⟨⟨[], .nil source, rfl, rfl, by simp [Graph.stops], ?_⟩, ?_, ?_, ?_⟩
  · intro i hi p port hcontains
    exact (Explored.contains_seen_add _ source i offered p port).mpr
      (Or.inr ⟨List.mem_singleton.mp hi, hcontains⟩)
  · intro e he
    exact he
  · intro w hw
    cases hw
  · intro d hd
    cases hd

/-- Every advance keeps all visits and the denial backed. -/
theorem Moment.Backed.advance {m m' : Moment g} (hoffered : offered.Specific)
    (h : m.Backed task source offered) (hstep : Advance task m m') :
    m'.Backed task source offered := by
  cases hstep with
  | cutOff hreach =>
    exact ⟨h.visit, fun f hf => h.edges f (List.mem_cons_of_mem _ hf), h.queue, h.denial⟩
  | repeated hreach hsome hother hseen =>
    exact ⟨h.visit, fun f hf => h.edges f (List.mem_cons_of_mem _ hf), h.queue, h.denial⟩
  | @refused v e es queue explored denial hreach hempty =>
    refine ⟨h.visit, fun f hf => h.edges f (List.mem_cons_of_mem _ hf), h.queue, ?_⟩
    intro d hd
    obtain ⟨walked, hbacked⟩ := h.visit
    rcases Option.or_eq_some_iff.mp hd with hold | ⟨_, hrefusal⟩
    · exact h.denial d hold
    · exact ⟨walked, e, hbacked.refusal (h.edges e List.mem_cons_self) hreach hempty hrefusal⟩
  | @fresh v e es queue explored denial hreach hsome hother hnew =>
    obtain ⟨walked, hbacked⟩ := h.visit
    refine ⟨⟨walked, hbacked.add _ _⟩, fun f hf => h.edges f (List.mem_cons_of_mem _ hf), ?_,
      h.denial⟩
    intro w hw
    rcases List.mem_append.mp hw with hold | hlast
    · obtain ⟨es', hw'⟩ := h.queue w hold
      exact ⟨es', hw'.add _ _⟩
    · rw [List.mem_singleton] at hlast
      subst hlast
      exact ⟨walked ++ [e], hbacked.along hoffered (h.edges e List.mem_cons_self) hnew⟩
  | turn =>
    exact ⟨h.queue _ List.mem_cons_self, fun f hf => hf,
      fun w hw => h.queue w (List.mem_cons_of_mem _ hw), h.denial⟩

/-- What a search meets on its course is backed by walks from its source. -/
theorem Runs.backed {m : Moment g} (hoffered : offered.Specific)
    (h : Runs task (opening g source offered) m) : m.Backed task source offered := by
  induction h with
  | refl => exact backed_opening task source offered
  | tail _ hstep ih => exact ih.advance hoffered hstep

end Search

end Perimeter
