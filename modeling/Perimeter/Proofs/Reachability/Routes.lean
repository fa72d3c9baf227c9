import Perimeter.Proofs.Reachability.Portwise
import Perimeter.Proofs.Topology.Listing

/-!
What a question about every port permits, by routes. A search stops at the first
walk that lets some port through, so it permits the ports that get through that
walk and no others. Asked about by itself, such a port takes the same route; a
port that is allowed and not among them takes another route, and no shorter one.
-/

namespace Perimeter

/-- The zones that a hop joins, and the rule set between them if there is one. -/
def PathHop.crossing (h : PathHop) : ZoneRef × ZoneRef × Option RuleSetId :=
  (h.source, h.target, h.ruleSet)

/-- The way that the path of a verdict takes, whatever gets through. -/
def Verdict.route (v : Verdict) : List (ZoneRef × ZoneRef × Option RuleSetId) :=
  v.path.map PathHop.crossing

theorem Edge.isFiltered_eq_isSome {n : Nat} (e : Edge n) :
    e.isFiltered = e.kind.ruleSetId?.isSome := by
  unfold isFiltered EdgeKind.ruleSetId?
  cases e.kind with
  | filtered rs => rfl
  | transit reason => rfl

namespace Graph

variable {g : Graph} {ends ends' : Ends} {i j k : Fin g.size} {es fs : List (Edge g.size)}

theorem length_hops (i : Fin g.size) (offered : ServiceSet) (es : List (Edge g.size)) :
    (g.hops ends i offered es).length = es.length := by
  induction es generalizing i offered with
  | nil => rfl
  | cons e rest ih => rw [hops, List.length_cons, List.length_cons, ih]

/-- The way along a walk does not depend on what is offered. -/
theorem map_crossing_hops (i : Fin g.size) (offered offered' : ServiceSet)
    (es : List (Edge g.size)) :
    (g.hops ends i offered es).map PathHop.crossing =
      (g.hops ends' i offered' es).map PathHop.crossing := by
  induction es generalizing i offered offered' with
  | nil => rfl
  | cons e rest ih =>
    rw [hops, hops, List.map_cons, List.map_cons, ih e.target _ (e.kind.passed ends' offered')]
    rfl

/-- Where zones tell nodes apart and edges between two nodes differ in whether a
rule set governs them, a walk is determined by the way it takes. -/
theorem Walk.eq_of_crossings (hzones : Function.Injective g.zone)
    (hedges : ∀ {i : Fin g.size} {e f : Edge g.size}, e ∈ g.leaving i → f ∈ g.leaving i →
      e.target = f.target → e.isFiltered = f.isFiltered → e = f)
    (h : g.Walk i es j) (h' : g.Walk i fs k) (offered : ServiceSet)
    (hsame : (g.hops ends i offered es).map PathHop.crossing =
      (g.hops ends i offered fs).map PathHop.crossing) : es = fs := by
  induction h generalizing fs offered with
  | nil =>
    cases h' with
    | nil => rfl
    | cons => cases hsame
  | @cons i j e es hedge _ ih =>
    cases h' with
    | nil => cases hsame
    | @cons _ _ f fs hedge' hrest' =>
      obtain ⟨hcrossing, hrest⟩ := List.cons.inj hsame
      obtain ⟨_, hkind⟩ := Prod.mk.inj hcrossing
      obtain ⟨htarget, hruleSet⟩ := Prod.mk.inj hkind
      have hfiltered : e.isFiltered = f.isFiltered := by
        rw [e.isFiltered_eq_isSome, f.isFiltered_eq_isSome]
        exact congrArg Option.isSome hruleSet
      obtain rfl := hedges hedge hedge' (hzones htarget) hfiltered
      rw [ih hrest' _ hrest]

variable {q : FlowQuery} {digest : String} {source destination : Fin g.size}

/-- What an offer of one port lets through, an offer of every port does as well. -/
theorem Delivers.of_atPort (hport : q.port = none) {n : UInt16} {ps : List Nat}
    (h : g.Delivers q.ends (q.atPort n).offered source destination ps es) :
    g.Delivers q.ends q.offered source destination ps es ∧
      (carried q.ends q.offered es).contains q.protocol n = true := by
  obtain ⟨p, port, hcarried⟩ := h.something
  obtain ⟨hin, hadmits⟩ := (contains_carried_iff q.ends _ es p port).mp hcarried
  obtain ⟨rfl, rfl⟩ := FlowQuery.contains_offered_atPort.mp hin
  have hpair : (carried q.ends q.offered es).contains q.protocol port = true :=
    (contains_carried_iff q.ends q.offered es _ port).mpr
      ⟨(FlowQuery.contains_offered_of_none hport).mpr rfl, hadmits⟩
  exact ⟨⟨h.itinerary, _, _, hpair⟩, hpair⟩

/-- A port that gets through the route of a question about every port takes that
route when it is asked about by itself. -/
theorem route_of_permitted (hport : q.port = none) {p : Protocol} {n : UInt16}
    (h : (g.answer source destination q digest).permitted.contains p n = true) :
    (g.answer source destination (q.atPort n) digest).route =
      (g.answer source destination q digest).route := by
  obtain ⟨rfl, hallowed'⟩ := allowed_atPort_of_permitted hport h
  by_cases hne : source = destination
  · subst hne
    rw [answer_of_same, answer_of_same]
    rfl
  · have hallowed := (answer_allowed_iff_exists_port hport digest).mpr ⟨n, hallowed'⟩
    obtain ⟨ps, es, hearliest, hpath, hpermitted⟩ := earliest_of_allowed hne hallowed
    obtain ⟨ps', es', hearliest', hpath', _⟩ := earliest_of_allowed hne hallowed'
    rw [hpermitted] at h
    obtain ⟨_, hadmits⟩ := (contains_carried_iff q.ends _ es _ n).mp h
    have hdelivers : g.Delivers q.ends (q.atPort n).offered source destination ps es :=
      ⟨hearliest.itinerary, q.protocol, n, (contains_carried_iff q.ends _ es _ n).mpr
        ⟨FlowQuery.contains_offered_atPort.mpr ⟨rfl, rfl⟩, hadmits⟩⟩
    -- Neither of the two earliest itineraries comes before the other.
    have hnot : ¬Earlier ps' ps :=
      hearliest.least ps' es' (hearliest'.toDelivers.of_atPort hport).1
    obtain rfl := Earlier.eq_of_not (hearliest'.least ps es hdelivers) hnot
    obtain ⟨rfl, _⟩ := hearliest.itinerary.unique hearliest'.itinerary
    unfold Verdict.route
    rw [hpath, hpath']
    exact map_crossing_hops source _ _ es

/-- A port that is allowed by itself over the route of a question about every
port gets through there. -/
theorem permitted_of_route (hzones : Function.Injective g.zone)
    (hedges : ∀ {i : Fin g.size} {e f : Edge g.size}, e ∈ g.leaving i → f ∈ g.leaving i →
      e.target = f.target → e.isFiltered = f.isFiltered → e = f)
    (hport : q.port = none) {n : UInt16}
    (hallowed : (g.answer source destination (q.atPort n) digest).allowed = true)
    (hroute : (g.answer source destination (q.atPort n) digest).route =
      (g.answer source destination q digest).route) :
    (g.answer source destination q digest).permitted.contains q.protocol n = true := by
  by_cases hne : source = destination
  · subst hne
    rw [answer_of_same]
    exact (FlowQuery.contains_offered_of_none hport).mpr rfl
  · obtain ⟨ps, es, hearliest, hpath, hpermitted⟩ :=
      earliest_of_allowed hne ((answer_allowed_iff_exists_port hport digest).mpr ⟨n, hallowed⟩)
    obtain ⟨ps', es', hearliest', hpath', _⟩ := earliest_of_allowed hne hallowed
    unfold Verdict.route at hroute
    rw [hpath, hpath', map_crossing_hops source _ q.offered es'] at hroute
    obtain rfl := hearliest'.itinerary.walk.eq_of_crossings hzones hedges
      hearliest.itinerary.walk q.offered hroute
    rw [hpermitted]
    exact (hearliest'.toDelivers.of_atPort hport).2

/-- The route of a question about every port is no longer than that of a port. -/
theorem length_path_le (hport : q.port = none) {n : UInt16}
    (h : (g.answer source destination (q.atPort n) digest).allowed = true) :
    (g.answer source destination q digest).path.length ≤
      (g.answer source destination (q.atPort n) digest).path.length := by
  by_cases hne : source = destination
  · subst hne
    rw [answer_of_same, answer_of_same]
    exact le_refl _
  · obtain ⟨ps, es, hearliest, hpath, _⟩ :=
      earliest_of_allowed hne ((answer_allowed_iff_exists_port hport digest).mpr ⟨n, h⟩)
    obtain ⟨ps', es', hearliest', hpath', _⟩ := earliest_of_allowed hne h
    rw [hpath, hpath', length_hops, length_hops, ← hearliest.itinerary.length_eq,
      ← hearliest'.itinerary.length_eq]
    refine Nat.le_of_not_lt fun hless => ?_
    exact hearliest.least ps' es' (hearliest'.toDelivers.of_atPort hport).1 (.of_length_lt hless)

end Graph

namespace Engine

variable {s : Snapshot} {config : EngineConfig} {e : Engine}

/-- In the graph of a loaded engine zones tell nodes apart, and two edges between
the same nodes differ in whether a rule set governs them. -/
theorem distinct_of_load (hload : load s config = .ok e) :
    Function.Injective e.graph.zone ∧
      ∀ {i : Fin e.graph.size} {f f' : Edge e.graph.size}, f ∈ e.graph.leaving i →
        f' ∈ e.graph.leaving i → f.target = f'.target → f.isFiltered = f'.isFiltered → f = f' := by
  obtain ⟨hresolve, hbuild⟩ := load_eq_ok_iff.mp hload
  obtain ⟨hfault, _, _, _, _, _, _, hresolved⟩ := Snapshot.resolve_eq_ok_iff.mp hresolve
  have hsnapshot : e.resolved.snapshot.fault? = none := by
    rw [hresolved]
    exact hfault
  have hdirections := Snapshot.nodup_directions hresolve (Snapshot.fault?_eq_none_iff.mp hfault)
  exact ⟨Graph.zone_injective hbuild hsnapshot,
    fun hf hf' => Graph.eq_of_isFiltered_eq hbuild hdirections hf hf'⟩

/-- A question about every port permits exactly the ports that are allowed by
themselves over the same route. The ports that it lacks take other routes, none
of which is shorter. -/
theorem permitted_iff_route_eq {q : FlowQuery} {v : Verdict} (hload : load s config = .ok e)
    (hport : q.port = none) (hquery : e.query q = .ok v) :
    (∀ p n, v.permitted.contains p n = true ↔ p = q.protocol ∧
        ∃ v', e.query (q.atPort n) = .ok v' ∧ v'.allowed = true ∧ v'.route = v.route) ∧
      ∀ n v', e.query (q.atPort n) = .ok v' → v'.allowed = true →
        v.path.length ≤ v'.path.length := by
  obtain ⟨hzones, hedges⟩ := distinct_of_load hload
  obtain ⟨source, destination, hsource, hdestination, rfl⟩ := Graph.query_eq_ok_iff.mp hquery
  have hport' : ∀ n v', e.query (q.atPort n) = .ok v' →
      v' = e.graph.answer source destination (q.atPort n) e.digest := by
    intro n v' h
    obtain ⟨source', destination', hsource', hdestination', rfl⟩ := Graph.query_eq_ok_iff.mp h
    cases hsource.symm.trans hsource'
    cases hdestination.symm.trans hdestination'
    rfl
  refine ⟨fun p n => ⟨fun hin => ?_, ?_⟩, ?_⟩
  · obtain ⟨hprotocol, hallowed'⟩ := Graph.allowed_atPort_of_permitted hport hin
    exact ⟨hprotocol, _,
      Graph.query_eq_ok_iff.mpr ⟨source, destination, hsource, hdestination, rfl⟩, hallowed',
      Graph.route_of_permitted hport hin⟩
  · rintro ⟨rfl, v', h, hallowed', hroute⟩
    obtain rfl := hport' n v' h
    exact Graph.permitted_of_route hzones hedges hport hallowed' hroute
  · intro n v' h hallowed'
    obtain rfl := hport' n v' h
    exact Graph.length_path_le hport hallowed'

private def forkIn : Fin forkGraph.size := ⟨0, by decide⟩

private def forkMid : Fin forkGraph.size := ⟨1, by decide⟩

private def forkOut : Fin forkGraph.size := ⟨2, by decide⟩

private def forkHop : PathHop where
  source := ⟨"fw", "in"⟩
  target := ⟨"fw", "out"⟩
  ruleSet := some ⟨"fw", "in", "out", none⟩
  decision := .rule 5 .permit
  services := .ofFlow .tcp (some 80)

private theorem fork_search :
    forkGraph.search forkIn forkOut forkQuery.ends forkQuery.offered =
      .reached [forkHop] (.ofFlow .tcp (some 80)) := by
  have hleaving : forkGraph.leaving forkIn =
      [⟨forkMid, .filtered (forkRules "in" "mid" .any)⟩,
        ⟨forkOut, .filtered (forkRules "in" "out" (.ofFlow .tcp (some 80)))⟩] :=
    Graph.leaving_ofArcs_of_perm (.swap _ _ _) (List.pairwise_pair.mpr (by decide))
  have hexit : (⟨forkOut, .filtered (forkRules "mid" "out" (.ofFlow .tcp (some 443)))⟩ :
      Edge forkGraph.size) ∈ forkGraph.leaving forkMid :=
    Graph.mem_leaving_ofArcs.mpr ⟨_, .tail _ (.tail _ (.head _)), rfl, rfl⟩
  have hwalk : forkGraph.Walk forkIn _ forkOut :=
    .single (hleaving ▸ List.mem_cons_of_mem _ List.mem_cons_self)
  -- The zone between is queued, and the next edge arrives before its turn comes.
  refine Graph.search_of_runs hwalk.mem_nodesReaching hleaving (.single (.fresh ?_ ?_ ?_ ?_))
    (.arrived ?_ ?_ rfl)
  · exact (Graph.Walk.single hexit).mem_nodesReaching
  · decide
  · decide
  · decide
  · exact Graph.mem_nodesReaching_self forkOut
  · decide

private theorem fork_query :
    forkEngine.query forkQuery = .ok (forkGraph.verdict forkIn forkOut forkQuery fork.digest true
      .permitted [forkHop] (.ofFlow .tcp (some 80))) := by
  have hanswer : forkGraph.answer forkIn forkOut forkQuery fork.digest =
      forkGraph.verdict forkIn forkOut forkQuery fork.digest true .permitted [forkHop]
        (.ofFlow .tcp (some 80)) := by
    have hne : forkIn ≠ forkOut := by decide
    unfold Graph.answer
    rw [if_neg hne, fork_search]
  exact Graph.query_eq_ok_iff.mpr ⟨forkIn, forkOut, rfl, rfl, hanswer.symm⟩

theorem fork_permitted_iff :
    load fork forkConfig = .ok forkEngine ∧ forkQuery.port = none ∧
      ∃ v, forkEngine.query forkQuery = .ok v ∧ v.permitted.contains .tcp 80 = true ∧
        (∀ p n, v.permitted.contains p n = true ↔ p = forkQuery.protocol ∧
          ∃ v', forkEngine.query (forkQuery.atPort n) = .ok v' ∧ v'.allowed = true ∧
            v'.route = v.route) ∧
        ∀ n v', forkEngine.query (forkQuery.atPort n) = .ok v' → v'.allowed = true →
          v.path.length ≤ v'.path.length :=
  ⟨fork_load, rfl, _, fork_query, by decide, permitted_iff_route_eq fork_load rfl fork_query⟩

/-- What a question about every port permits need not hold every port that is
allowed: secure web traffic has no direct way out, and is not looked for on
another once web traffic has arrived. -/
theorem fork_lacks_allowed_port :
    load fork forkConfig = .ok forkEngine ∧ forkQuery.port = none ∧
      ∃ v v', forkEngine.query forkQuery = .ok v ∧ v.allowed = true ∧
        forkEngine.query (forkQuery.atPort 443) = .ok v' ∧ v'.allowed = true ∧
        v.permitted.contains .tcp 443 = false := by
  have hentry : (⟨forkMid, .filtered (forkRules "in" "mid" .any)⟩ : Edge forkGraph.size) ∈
      forkGraph.leaving forkIn :=
    Graph.mem_leaving_ofArcs.mpr ⟨_, .tail _ (.head _), rfl, rfl⟩
  have hexit : (⟨forkOut, .filtered (forkRules "mid" "out" (.ofFlow .tcp (some 443)))⟩ :
      Edge forkGraph.size) ∈ forkGraph.leaving forkMid :=
    Graph.mem_leaving_ofArcs.mpr ⟨_, .tail _ (.tail _ (.head _)), rfl, rfl⟩
  have hallowed : (forkGraph.answer forkIn forkOut (forkQuery.atPort 443) fork.digest).allowed =
      true := by
    refine Graph.answer_allowed_iff.mpr (Or.inr ⟨_, Graph.letsThrough_atPort_iff.mpr
      ⟨.cons hentry (.cons hexit (.nil _)), ?_⟩⟩)
    intro e he
    rcases List.mem_cons.mp he with rfl | he
    · decide
    · rw [List.mem_singleton.mp he]
      decide
  exact ⟨fork_load, rfl, _, _, fork_query, rfl,
    Graph.query_eq_ok_iff.mpr ⟨forkIn, forkOut, rfl, rfl, rfl⟩, hallowed, by decide⟩

end Engine

end Perimeter
