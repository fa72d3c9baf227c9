import Perimeter.Proofs.Reachability.Completeness
import Perimeter.Proofs.Topology.Itinerary

/-!
A search finds the earliest walk that lets something through. Visits come up in
the order of their itineraries, and whatever a node has seen was brought there
by an itinerary earlier than the one at hand. Take the earliest itinerary that
lets something through to the destination. Some part of it is always queued or
being followed: an edge of it is never cut off or refused, and if what it brings
had been seen before, an earlier itinerary with the same rest would do as well.
So no arrival comes after it, and none before it either.
-/

namespace Perimeter

namespace Graph

variable {g : Graph} {ends : Ends} {offered : ServiceSet} {source destination : Fin g.size}

/-- One of the offered pairs gets through a walk between two nodes. -/
def LetsThrough (g : Graph) (ends : Ends) (offered : ServiceSet) (source destination : Fin g.size)
    (es : List (Edge g.size)) : Prop :=
  g.Walk source es destination ∧ ∃ p port, offered.contains p port = true ∧
    ∀ e ∈ es, e.kind.Admits (ends.flow p port)

/-- Something of an offer gets through an itinerary between two nodes. -/
structure Delivers (g : Graph) (ends : Ends) (offered : ServiceSet)
    (source destination : Fin g.size) (ps : List Nat) (es : List (Edge g.size)) : Prop where
  itinerary : g.Itinerary source ps es destination
  something : (carried ends offered es).HasPair

theorem letsThrough_iff {es : List (Edge g.size)} :
    g.LetsThrough ends offered source destination es ↔
      ∃ ps, g.Delivers ends offered source destination ps es := by
  constructor
  · rintro ⟨hwalk, p, port, hadmitted⟩
    obtain ⟨ps, hitinerary⟩ := Itinerary.of_walk hwalk
    exact ⟨ps, hitinerary, p, port, (contains_carried_iff ends offered es p port).mpr hadmitted⟩
  · rintro ⟨ps, hitinerary, p, port, hcarried⟩
    exact ⟨hitinerary.walk, p, port, (contains_carried_iff ends offered es p port).mp hcarried⟩

/-- Nothing of the offer gets through an earlier itinerary. -/
structure Earliest (g : Graph) (ends : Ends) (offered : ServiceSet)
    (source destination : Fin g.size) (ps : List Nat) (es : List (Edge g.size)) : Prop
    extends g.Delivers ends offered source destination ps es where
  least : ∀ qs fs, g.Delivers ends offered source destination qs fs → ¬Earlier qs ps

theorem Delivers.exists_earliest {ps : List Nat} {es : List (Edge g.size)}
    (h : g.Delivers ends offered source destination ps es) :
    ∃ qs fs, g.Earliest ends offered source destination qs fs := by
  have hwf : WellFounded Earlier := List.Shortlex.wf wellFounded_lt
  obtain ⟨qs, ⟨fs, hdelivers⟩, hleast⟩ :=
    hwf.has_min {qs | ∃ fs, g.Delivers ends offered source destination qs fs} ⟨ps, es, h⟩
  exact ⟨qs, fs, hdelivers, fun qs' fs' h' => hleast qs' ⟨fs', h'⟩⟩

end Graph

namespace Search

variable {g : Graph} {task : Task g} {source : Fin g.size} {offered : ServiceSet}

/-- A visit is backed by a walk with the given itinerary, which does not come to
the destination. -/
def Visit.RoutedBy (v : Visit g) (task : Task g) (source : Fin g.size) (offered : ServiceSet)
    (explored : Explored g.size) (us : List Nat) : Prop :=
  ∃ es, g.Itinerary source us es v.node ∧ v.BackedBy task.ends source offered explored es ∧
    task.destination ∉ g.stops source es

/-- The visits of a moment are in the order of their itineraries, up to the edge
to be followed next, and what nodes have seen was brought there before it. -/
structure Moment.Ordered (m : Moment g) (task : Task g) (source : Fin g.size)
    (offered : ServiceSet) (us : List Nat) (k : Nat) (queued : List (List Nat)) : Prop where
  visit : m.visit.RoutedBy task source offered m.explored us
  edges : m.edges = (g.leaving m.visit.node).drop k
  queue : List.Forall₂ (fun w ws => w.RoutedBy task source offered m.explored ws) m.queue queued
  ascending : (us :: queued).Pairwise Earlier
  bounded : ∀ ws ∈ queued, Earlier ws (us ++ [k])
  sighted : ∀ i p port, (m.explored.seen i).contains p port = true →
    ∃ cs es, Earlier cs (us ++ [k]) ∧ g.Itinerary source cs es i ∧
      (carried task.ends offered es).contains p port = true

theorem ordered_opening (task : Task g) (hne : source ≠ task.destination)
    (offered : ServiceSet) : (opening g source offered).Ordered task source offered [] 0 [] := by
  obtain ⟨es, hbacked⟩ := (backed_opening task source offered).visit
  refine ⟨⟨[], .nil source, ?_, ?_⟩, rfl, .nil, List.pairwise_singleton _ _, ?_, ?_⟩
  · refine ⟨.nil source, rfl, rfl, List.nodup_singleton source, ?_⟩
    intro i hi p port hin
    exact (Explored.contains_seen_add _ source i offered p port).mpr
      (Or.inr ⟨List.mem_singleton.mp hi, hin⟩)
  · exact fun hmem => hne (List.mem_singleton.mp hmem).symm
  · intro ws hws
    cases hws
  · intro i p port hin
    rcases (Explored.contains_seen_add _ source i offered p port).mp hin with hnone | ⟨rfl, hoffer⟩
    · have hempty : (Explored.nothing g.size).seen i = .empty := Vector.getElem_replicate i.isLt
      rw [hempty, ServiceSet.not_contains_of_isEmpty (by decide)] at hnone
      cases hnone
    · exact ⟨[], [], .of_snoc [] 0, .nil i, hoffer⟩

/-- Bringing more to a node keeps visits backed. -/
theorem Visit.RoutedBy.add {v : Visit g} {explored : Explored g.size} {us : List Nat}
    (h : v.RoutedBy task source offered explored us) (i : Fin g.size) (s : ServiceSet) :
    v.RoutedBy task source offered (explored.add i s) us := by
  obtain ⟨es, hitinerary, hbacked, hoff⟩ := h
  exact ⟨es, hitinerary, hbacked.add i s, hoff⟩

section Moment

variable {v : Visit g} {e : Edge g.size} {es : List (Edge g.size)} {queue : List (Visit g)}
  {explored : Explored g.size} {denial denial' : Option Denial} {us : List Nat} {k : Nat}
  {queued : List (List Nat)}

/-- The edge to be followed next is the one at its position. -/
theorem Moment.Ordered.next
    (h : Moment.Ordered ⟨v, e :: es, queue, explored, denial⟩ task source offered us k queued) :
    (g.leaving v.node)[k]? = some e ∧ es = (g.leaving v.node).drop (k + 1) := by
  have hdrop : e :: es = (g.leaving v.node).drop k := h.edges
  have hlt : k < (g.leaving v.node).length := by
    refine Nat.lt_of_not_le fun hle => ?_
    rw [List.drop_eq_nil_of_le hle] at hdrop
    cases hdrop
  rw [List.drop_eq_getElem_cons hlt] at hdrop
  obtain ⟨rfl, rfl⟩ := List.cons.inj hdrop
  exact ⟨List.getElem?_eq_getElem hlt, rfl⟩

/-- Leaving an edge behind keeps the order. -/
theorem Moment.Ordered.skip (h : Moment.Ordered ⟨v, e :: es, queue, explored, denial⟩ task source
    offered us k queued) :
    Moment.Ordered ⟨v, es, queue, explored, denial'⟩ task source offered us (k + 1) queued where
  visit := h.visit
  edges := h.next.2
  queue := h.queue
  ascending := h.ascending
  bounded ws hws := (h.bounded ws hws).trans (.snoc_of_lt us (Nat.lt_succ_self k))
  sighted i p port hin := by
    obtain ⟨cs, fs, hcs, hbrought⟩ := h.sighted i p port hin
    exact ⟨cs, fs, hcs.trans (.snoc_of_lt us (Nat.lt_succ_self k)), hbrought⟩

/-- So does queueing the visit that an edge makes. -/
theorem Moment.Ordered.fresh (hoffered : offered.Specific)
    (h : Moment.Ordered ⟨v, e :: es, queue, explored, denial⟩ task source offered us k queued)
    (hother : e.target ≠ task.destination)
    (hnew : ¬(v.along task e).services.isSubset (explored.seen e.target) = true) :
    Moment.Ordered ⟨v, es, queue ++ [v.along task e],
      explored.add e.target (v.along task e).services, denial⟩ task source offered us (k + 1)
      (queued ++ [us ++ [k]]) := by
  obtain ⟨walked, hitinerary, hbacked, hoff⟩ := h.visit
  have hedge := h.next.1
  have hlonger := hitinerary.snoc hedge
  have hlater := Earlier.snoc_of_lt us (Nat.lt_succ_self k)
  refine ⟨h.visit.add _ _, h.next.2, ?_, ?_, ?_, ?_⟩
  · apply List.rel_append (h.queue.imp fun _ _ hw => hw.add _ _)
    refine .cons ⟨_, hlonger, hbacked.along hoffered (List.mem_of_getElem? hedge) hnew, ?_⟩ .nil
    rw [Graph.stops_snoc, List.mem_append, List.mem_singleton]
    exact fun hmem => hmem.elim hoff fun hsame => hother hsame.symm
  · rw [← List.cons_append, List.pairwise_append]
    refine ⟨h.ascending, List.pairwise_singleton _ _, ?_⟩
    intro ws hws xs hxs
    rw [List.mem_singleton.mp hxs]
    rcases List.mem_cons.mp hws with rfl | hws
    · exact .of_snoc ws k
    · exact h.bounded ws hws
  · intro ws hws
    rcases List.mem_append.mp hws with hws | hws
    · exact (h.bounded ws hws).trans hlater
    · exact List.mem_singleton.mp hws ▸ hlater
  · intro i p port hin
    rcases (explored.contains_seen_add e.target i _ p port).mp hin with hold | ⟨rfl, hnow⟩
    · obtain ⟨cs, fs, hcs, hbrought⟩ := h.sighted i p port hold
      exact ⟨cs, fs, hcs.trans hlater, hbrought⟩
    · rw [hbacked.services_along] at hnow
      exact ⟨_, _, hlater, hlonger, hnow⟩

/-- The next visit in the queue comes later than all of this one's edges. -/
theorem Moment.Ordered.turn {w : Visit g} {ws : List Nat}
    (h : Moment.Ordered ⟨v, [], w :: queue, explored, denial⟩ task source offered us k
      (ws :: queued)) :
    Moment.Ordered ⟨w, g.leaving w.node, queue, explored, denial⟩ task source offered ws 0
      queued := by
  obtain ⟨hw, hqueue⟩ := List.forall₂_cons.mp h.queue
  obtain ⟨hfirst, hrest⟩ := List.pairwise_cons.mp h.ascending
  have hlater : Earlier (us ++ [k]) (ws ++ [0]) := (hfirst ws List.mem_cons_self).append rfl
  refine ⟨hw, List.drop_zero.symm, hqueue, hrest, ?_, ?_⟩
  · intro xs hxs
    exact (h.bounded xs (List.mem_cons_of_mem _ hxs)).trans hlater
  · intro i p port hin
    obtain ⟨cs, fs, hcs, hbrought⟩ := h.sighted i p port hin
    exact ⟨cs, fs, hcs.trans hlater, hbrought⟩

end Moment

/-- A part of an itinerary is queued, or being followed up to a later edge. -/
def Upcoming (us : List Nat) (k : Nat) (queued : List (List Nat)) (ps : List Nat) : Prop :=
  ∃ as q bs, ps = as ++ q :: bs ∧ (as ∈ queued ∨ (as = us ∧ k ≤ q))

/-- The edge to be followed next is on the itinerary, or another part of it is
still to come. -/
theorem Upcoming.cases {us ps : List Nat} {k : Nat} {queued : List (List Nat)}
    (h : Upcoming us k queued ps) : Upcoming us (k + 1) queued ps ∨ ∃ bs, ps = us ++ k :: bs := by
  obtain ⟨as, q, bs, rfl, hqueued | ⟨rfl, hle⟩⟩ := h
  · exact Or.inl ⟨as, q, bs, rfl, Or.inl hqueued⟩
  · rcases Nat.lt_or_eq_of_le hle with hlt | rfl
    · exact Or.inl ⟨as, q, bs, rfl, Or.inr ⟨rfl, hlt⟩⟩
    · exact Or.inr ⟨bs, rfl⟩

/-- An upcoming itinerary does not come before the edge to be followed next. -/
theorem Upcoming.not_earlier {us ps : List Nat} {k : Nat} {queued : List (List Nat)}
    (h : Upcoming us k queued ps) (hascending : (us :: queued).Pairwise Earlier) :
    ¬Earlier ps (us ++ [k]) := by
  obtain ⟨as, q, bs, rfl, hplace⟩ := h
  have hpart : as ++ q :: bs = (as ++ [q]) ++ bs := by simp
  have hbefore : ¬Earlier (as ++ [q]) (us ++ [k]) := by
    rcases hplace with hqueued | ⟨rfl, hle⟩
    · have hlater := (List.pairwise_cons.mp hascending).1 as hqueued
      have hsnoc : Earlier (us ++ [k]) (as ++ [q]) := hlater.append rfl
      exact hsnoc.asymm
    · rcases Nat.lt_or_eq_of_le hle with hlt | rfl
      · exact (Earlier.snoc_of_lt as hlt).asymm
      · exact fun hself => hself.asymm hself
  intro hearlier
  apply hbefore
  rw [hpart] at hearlier
  cases bs with
  | nil => simpa using hearlier
  | cons b rest => exact Earlier.trans (.of_length_lt (by simp)) hearlier

section Progress

variable {v : Visit g} {e : Edge g.size} {edges : List (Edge g.size)} {queue : List (Visit g)}
  {explored : Explored g.size} {denial : Option Denial} {us ps : List Nat} {k : Nat}
  {queued : List (List Nat)} {es : List (Edge g.size)}

/-- What gets through an itinerary to the destination gets over its edges from a
visit on. -/
theorem Visit.RoutedBy.toward (h : v.RoutedBy task source offered explored us)
    (hedge : (g.leaving v.node)[k]? = some e) {bs : List Nat}
    (hdelivers : g.Delivers task.ends offered source task.destination (us ++ k :: bs) es) :
    ∃ rest p port, g.Itinerary e.target bs rest task.destination ∧
      (v.along task e).services.contains p port = true ∧
      ∀ f ∈ rest, f.kind.Admits (task.ends.flow p port) := by
  obtain ⟨walked, hitinerary, hbacked, _⟩ := h
  obtain ⟨_, rfl, hrest⟩ := hitinerary.of_append_left hdelivers.itinerary
  obtain ⟨p, port, hin⟩ := hdelivers.something
  cases hrest with
  | @cons _ _ _ _ f rest hedge' hrest =>
    cases Option.some.inj (hedge.symm.trans hedge')
    obtain ⟨hoffered, hadmits⟩ := (contains_carried_iff _ _ _ p port).mp hin
    refine ⟨rest, p, port, hrest, ?_, ?_⟩
    · rw [hbacked.services_along, contains_carried_iff]
      refine ⟨hoffered, fun f hf => hadmits f ?_⟩
      rw [List.append_cons]
      exact List.mem_append_left _ hf
    · intro f hf
      exact hadmits f (List.mem_append_right _ (List.mem_cons_of_mem _ hf))

/-- An itinerary does not go on from a visit whose edges are all behind. -/
theorem Visit.RoutedBy.not_le (h : v.RoutedBy task source offered explored us) {q : Nat}
    {bs : List Nat}
    (hdelivers : g.Delivers task.ends offered source task.destination (us ++ q :: bs) es)
    (hdone : [] = (g.leaving v.node).drop k) : ¬k ≤ q := by
  intro hle
  obtain ⟨walked, hitinerary, _, _⟩ := h
  obtain ⟨_, rfl, hrest⟩ := hitinerary.of_append_left hdelivers.itinerary
  cases hrest with
  | cons hedge _ =>
    obtain ⟨hlt, _⟩ := List.getElem?_eq_some_iff.mp hedge
    exact absurd (List.drop_eq_nil_iff.mp hdone.symm) (by omega)

/-- What an edge of the earliest itinerary brings has not been seen before: it
could go on the same way from an earlier arrival. -/
theorem Moment.Ordered.not_repeated {bs : List Nat}
    (h : Moment.Ordered ⟨v, e :: edges, queue, explored, denial⟩ task source offered us k queued)
    (hearliest : g.Earliest task.ends offered source task.destination (us ++ k :: bs) es) :
    ¬(v.along task e).services.isSubset (explored.seen e.target) = true := by
  intro hseen
  obtain ⟨rest, p, port, hrest, hin, hadmits⟩ := h.visit.toward h.next.1 hearliest.toDelivers
  have hbefore := (ServiceSet.isSubset_iff.mp hseen).2 p port hin
  obtain ⟨cs, fs, hcs, hitinerary, hcarried⟩ := h.sighted e.target p port hbefore
  obtain ⟨hoffered, hadmits'⟩ := (contains_carried_iff _ _ _ p port).mp hcarried
  refine hearliest.least (cs ++ bs) (fs ++ rest) ⟨hitinerary.append hrest, p, port, ?_⟩ ?_
  · refine (contains_carried_iff _ _ _ p port).mpr ⟨hoffered, fun f hf => ?_⟩
    exact (List.mem_append.mp hf).elim (hadmits' f) (hadmits f)
  · rw [List.append_cons]
    exact hcs.append rfl

/-- The earliest itinerary stays upcoming. -/
theorem Moment.Ordered.advance {m m' : Moment g} (hoffered : offered.Specific)
    (hreaching : ∀ i fs, g.Walk i fs task.destination → i ∈ task.reaching)
    (h : m.Ordered task source offered us k queued)
    (hearliest : g.Earliest task.ends offered source task.destination ps es)
    (hupcoming : Upcoming us k queued ps) (hstep : Advance task m m') :
    ∃ us' k' queued', m'.Ordered task source offered us' k' queued' ∧
      Upcoming us' k' queued' ps := by
  cases hstep with
  | cutOff hoff =>
    refine ⟨us, k + 1, queued, h.skip, hupcoming.cases.resolve_right ?_⟩
    rintro ⟨bs, rfl⟩
    obtain ⟨rest, _, _, hrest, _⟩ := h.visit.toward h.next.1 hearliest.toDelivers
    exact hoff (hreaching _ rest hrest.walk)
  | refused _ hempty =>
    refine ⟨us, k + 1, queued, h.skip, hupcoming.cases.resolve_right ?_⟩
    rintro ⟨bs, rfl⟩
    obtain ⟨_, p, port, _, hin, _⟩ := h.visit.toward h.next.1 hearliest.toDelivers
    rw [ServiceSet.not_contains_of_isEmpty hempty] at hin
    cases hin
  | repeated _ _ _ hseen =>
    refine ⟨us, k + 1, queued, h.skip, hupcoming.cases.resolve_right ?_⟩
    rintro ⟨bs, rfl⟩
    exact h.not_repeated hearliest hseen
  | fresh _ _ hother hnew =>
    refine ⟨us, k + 1, queued ++ [us ++ [k]], h.fresh hoffered hother hnew, ?_⟩
    rcases hupcoming.cases with ⟨as, q, bs, hps, hplace⟩ | ⟨bs, rfl⟩
    · exact ⟨as, q, bs, hps, hplace.imp_left (List.mem_append_left _)⟩
    · obtain ⟨_, _, _, hrest, _⟩ := h.visit.toward h.next.1 hearliest.toDelivers
      cases bs with
      | nil => exact absurd ((hrest.unique (.nil _)).2).symm hother
      | cons b bs => exact ⟨us ++ [k], b, bs, by simp, Or.inl (by simp)⟩
  | @turn v w queue explored denial =>
    obtain ⟨as, q, bs, rfl, hplace⟩ := hupcoming
    obtain ⟨ws, queued, _, _, rfl⟩ := List.forall₂_cons_left_iff.mp h.queue
    refine ⟨ws, 0, queued, h.turn, as, q, bs, rfl, ?_⟩
    rcases hplace with hqueued | ⟨rfl, hle⟩
    · rcases List.mem_cons.mp hqueued with rfl | hrest
      · exact Or.inr ⟨rfl, Nat.zero_le q⟩
      · exact Or.inl hrest
    · exact absurd hle (h.visit.not_le hearliest.toDelivers h.edges)

end Progress

/-- From the start of a search to its end the earliest itinerary is upcoming. -/
theorem Runs.upcoming {m : Moment g} {ps : List Nat} {es : List (Edge g.size)}
    (hoffered : offered.Specific)
    (hreaching : ∀ i fs, g.Walk i fs task.destination → i ∈ task.reaching)
    (hne : source ≠ task.destination)
    (hearliest : g.Earliest task.ends offered source task.destination ps es)
    (h : Runs task (opening g source offered) m) :
    ∃ us k queued, m.Ordered task source offered us k queued ∧ Upcoming us k queued ps := by
  induction h with
  | refl =>
    refine ⟨[], 0, [], ordered_opening task hne offered, ?_⟩
    cases ps with
    | nil => exact absurd ((hearliest.itinerary.unique (.nil _)).2).symm hne
    | cons q bs => exact ⟨[], q, bs, rfl, Or.inr ⟨rfl, Nat.zero_le q⟩⟩
  | tail _ hstep ih =>
    obtain ⟨us, k, queued, hordered, hupcoming⟩ := ih
    exact hordered.advance hoffered hreaching hearliest hupcoming hstep

end Search

namespace Graph

variable {g : Graph} {source destination : Fin g.size} {ends : Ends} {offered : ServiceSet}

/-- Where a walk lets an offered pair through, a search finds some path. -/
theorem LetsThrough.exists_reached {es : List (Edge g.size)} (hne : source ≠ destination)
    (h : g.LetsThrough ends offered source destination es) :
    ∃ path permitted, g.search source destination ends offered = .reached path permitted := by
  obtain ⟨hwalk, p, port, hin, hadmits⟩ := h
  by_contra hnot
  refine not_admitted_of_not_reached hne ?_ hwalk hin hadmits
  intro path permitted hreached
  exact hnot ⟨path, permitted, hreached⟩

/-- A path that is found is made of the hops of the earliest itinerary that lets
something through, which comes to no node twice. -/
theorem search_earliest (hoffered : offered.Specific) (hne : source ≠ destination)
    {path : List PathHop} {permitted : ServiceSet}
    (h : g.search source destination ends offered = .reached path permitted) :
    ∃ ps es, g.Earliest ends offered source destination ps es ∧
      path = g.hops ends source offered es ∧ permitted = carried ends offered es ∧
      (g.stops source es).Nodup := by
  obtain ⟨found, _, hfound, _, rfl, hsome⟩ := search_reached hoffered h
  obtain ⟨_, hitinerary⟩ := Itinerary.of_walk hfound
  have hpair := (specific_carried ends hoffered found).exists_contains hsome
  obtain ⟨ps, es, hearliest⟩ := Delivers.exists_earliest ⟨hitinerary, hpair⟩
  have hreach : source ∈ g.nodesReaching destination := hfound.mem_nodesReaching
  obtain ⟨m, hruns, hfinal⟩ := search_final ends offered hreach
  obtain ⟨us, k, queued, hordered, hupcoming⟩ :=
    hruns.upcoming hoffered (fun _ _ hwalk => hwalk.mem_nodesReaching) hne hearliest
  rw [h] at hfinal
  generalize hpermitted : carried ends offered found = permitted at hfinal
  cases hfinal with
  | @arrived v e edges queue explored denial hreach hsome hthere =>
    obtain ⟨walked, hwalked, hbacked, hoff⟩ := hordered.visit
    have harrival := hwalked.snoc hordered.next.1
    rw [hthere] at harrival
    rw [hbacked.services_along] at hsome
    have hdelivers : g.Delivers ends offered source destination (us ++ [k]) (walked ++ [e]) :=
      ⟨harrival, (specific_carried _ hoffered _).exists_contains (Bool.eq_false_iff.mpr hsome)⟩
    have hsame : us ++ [k] = ps := Earlier.eq_of_not (hearliest.least _ _ hdelivers)
      (hupcoming.not_earlier hordered.ascending)
    subst hsame
    obtain ⟨rfl, _⟩ := hearliest.itinerary.unique harrival
    refine ⟨_, _, hearliest, hbacked.trail_along e, hbacked.services_along e, ?_⟩
    rw [stops_snoc, List.nodup_append]
    refine ⟨hbacked.nodup, List.nodup_singleton _, ?_⟩
    rintro i hi j hj rfl
    rw [List.mem_singleton, hthere] at hj
    exact hoff (hj ▸ hi)

end Graph

end Perimeter
