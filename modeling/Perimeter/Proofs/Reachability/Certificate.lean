import Perimeter.Engine
import Perimeter.Proofs.Reachability.Account
import Perimeter.Proofs.Snapshot.Resolution
import Perimeter.Proofs.Topology.Distinct

/-!
Verdicts as certificates. Whoever has the graph and a verdict can make the hops
of its path again, each from what the hop before let through, and see from them
why the verdict came out as it did. Every answer of a loaded engine can be
checked in this way.
-/

namespace Perimeter

theorem FlowQuery.specific_offered (q : FlowQuery) : q.offered.Specific :=
  ServiceSet.specific_ofFlow q.protocol q.port

/-- The rule set that a denial is put down to. -/
def Reason.deniedBy? : Reason → Option RuleSetId
  | .deniedByRule ruleSet _ => some ruleSet
  | .deniedByDefault ruleSet => some ruleSet
  | .permitted => none
  | .intraZone => none
  | .noPath => none

theorem PathHop.deniedBy_of_denial? {hop : PathHop} {reason : Reason}
    (h : hop.denial? = some reason) :
    ∃ ruleSet, reason.deniedBy? = some ruleSet ∧ hop.ruleSet = some ruleSet := by
  obtain ⟨ruleSet, hruleSet, rfl⟩ := Option.map_eq_some_iff.mp h
  refine ⟨ruleSet, ?_, hruleSet⟩
  split <;> rfl

namespace Graph

/-- A hop over an edge from a node, with the services that arrive there. A rule set
lets on those of them that its evaluation permits and decides by it; a link lets all
of them on. -/
inductive Passes (g : Graph) (ends : Ends) (i : Fin g.size) (arriving : ServiceSet) :
    PathHop → Fin g.size → Prop where
  | filtered {j : Fin g.size} {rs : ResolvedRuleSet} {evaluation : Evaluation}
      (hedge : ⟨j, .filtered rs⟩ ∈ g.leaving i)
      (hevaluation : rs.evaluateServices ends.source ends.destination arriving = evaluation) :
      Passes g ends i arriving ⟨g.zone i, g.zone j, some rs.id,
        evaluation.decision rs.defaultAction, evaluation.permitted⟩ j
  | transit {j : Fin g.size} {reason : LinkReason} (hedge : ⟨j, .transit reason⟩ ∈ g.leaving i) :
      Passes g ends i arriving ⟨g.zone i, g.zone j, none, .transit reason, arriving⟩ j

/-- The hops of a path lead from one node to another, one after the other, and at each
of them arrives what the hop before it let on. -/
inductive Replays (g : Graph) (ends : Ends) :
    Fin g.size → ServiceSet → List PathHop → Fin g.size → Prop where
  | nil (i : Fin g.size) (arriving : ServiceSet) : Replays g ends i arriving [] i
  | cons {i j k : Fin g.size} {arriving : ServiceSet} {hop : PathHop} {path : List PathHop}
      (hhop : g.Passes ends i arriving hop j) (hrest : Replays g ends j hop.services path k) :
      Replays g ends i arriving (hop :: path) k

variable {g : Graph} {ends : Ends} {i j : Fin g.size} {arriving : ServiceSet}

/-- What passes is what a crossing of the edge makes. -/
theorem passes_iff {hop : PathHop} :
    g.Passes ends i arriving hop j ↔
      ∃ e ∈ g.leaving i, e.target = j ∧ hop = g.cross i e ends arriving := by
  constructor
  · intro h
    cases h with
    | filtered hedge hevaluation =>
      subst hevaluation
      exact ⟨_, hedge, rfl, rfl⟩
    | transit hedge => exact ⟨_, hedge, rfl, rfl⟩
  · rintro ⟨⟨target, kind⟩, hedge, rfl, rfl⟩
    cases kind with
    | filtered rs => exact .filtered hedge rfl
    | transit reason => exact .transit hedge

/-- The hops that a walk makes of an offer can be replayed. -/
theorem Walk.replays {es : List (Edge g.size)} (h : g.Walk i es j) (arriving : ServiceSet) :
    g.Replays ends i arriving (g.hops ends i arriving es) j := by
  induction h generalizing arriving with
  | nil i => exact .nil i arriving
  | cons hedge _ ih => exact .cons (passes_iff.mpr ⟨_, hedge, rfl, rfl⟩) (ih _)

end Graph

/-- A verdict on a question between two nodes bears out what it says. -/
structure Verdict.Certified (v : Verdict) (g : Graph) (source destination : Fin g.size) :
    Prop where
  sourceZone : v.sourceZone = g.zone source
  destinationZone : v.destinationZone = g.zone destination
  allowed : v.allowed = true ↔ v.reason = .permitted ∨ v.reason = .intraZone
  intraZone : v.reason = .intraZone ↔ v.sourceZone = v.destinationZone
  stayed : v.reason = .intraZone → v.path = [] ∧ v.permitted = v.query.offered
  /-- The path can be replayed from the source with what is offered. -/
  replay : ∃ target, g.Replays v.query.ends source v.query.offered v.path target
  narrowing : v.narrowing = v.path.map (·.services)
  narrows : (v.query.offered :: v.narrowing).Pairwise
    fun before after => after.isSubset before = true
  /-- What is left after a hop was there before it, and is part of the offer. -/
  included : (v.query.offered :: v.narrowing).Pairwise fun before after =>
    ∀ p port, after.contains p port = true → before.contains p port = true
  arrived : v.reason = .permitted → ∃ before last, v.path = before ++ [last] ∧
    last.target = v.destinationZone ∧ (∀ hop ∈ v.path, hop.services.HasPair) ∧
    v.permitted = last.services
  /-- Only the last hop lets nothing through; from its target on there is a way. -/
  stopped : ∀ ruleSet, v.reason.deniedBy? = some ruleSet → v.permitted = .empty ∧
    ∃ before last target rest, v.path = before ++ [last] ∧
      (∀ hop ∈ before, hop.services.HasPair) ∧ last.services = .empty ∧
      last.ruleSet = some ruleSet ∧ last.target = g.zone target ∧ g.Walk target rest destination
  unconnected : v.reason = .noPath → v.path = [] ∧ v.permitted = .empty

namespace Graph

variable {g : Graph} {source destination : Fin g.size} {q : FlowQuery}

/-- The verdict on a question that is put between two nodes. -/
def verdict (g : Graph) (source destination : Fin g.size) (q : FlowQuery) (digest : String)
    (allowed : Bool) (reason : Reason) (path : List PathHop) (permitted : ServiceSet) : Verdict :=
  ⟨digest, q, g.zone source, g.zone destination, allowed, reason, path, permitted⟩

theorem certified_intraZone (node : Fin g.size) (q : FlowQuery) (digest : String) :
    (g.verdict node node q digest true .intraZone [] q.offered).Certified g node node where
  sourceZone := rfl
  destinationZone := rfl
  allowed := by simp [verdict]
  intraZone := by simp [verdict]
  stayed _ := ⟨rfl, rfl⟩
  replay := ⟨node, .nil node q.offered⟩
  narrowing := rfl
  narrows := List.pairwise_singleton _ _
  included := List.pairwise_singleton _ _
  arrived h := by cases h
  stopped _ h := by cases h
  unconnected h := by cases h

/-- Between nodes of two zones, a verdict is certified by the walk of its path
as long as its reason fits what the path comes to. -/
theorem certified_of_walk (hzones : g.zone source ≠ g.zone destination) (digest : String)
    {allowed : Bool} {reason : Reason} {path : List PathHop} {permitted : ServiceSet}
    {es : List (Edge g.size)} {target : Fin g.size} (hwalk : g.Walk source es target)
    (hpath : path = g.hops q.ends source q.offered es) (hreason : reason ≠ .intraZone)
    (hallowed : allowed = true ↔ reason = .permitted)
    (harrived : reason = .permitted → ∃ before last, path = before ++ [last] ∧
      last.target = g.zone destination ∧ (∀ hop ∈ path, hop.services.HasPair) ∧
      permitted = last.services)
    (hstopped : ∀ ruleSet, reason.deniedBy? = some ruleSet → permitted = .empty ∧
      ∃ before last target rest, path = before ++ [last] ∧
        (∀ hop ∈ before, hop.services.HasPair) ∧ last.services = .empty ∧
        last.ruleSet = some ruleSet ∧ last.target = g.zone target ∧
        g.Walk target rest destination)
    (hunconnected : reason = .noPath → path = [] ∧ permitted = .empty) :
    (g.verdict source destination q digest allowed reason path permitted).Certified g source
      destination := by
  subst hpath
  have hnarrows : (q.offered :: (g.hops q.ends source q.offered es).map (·.services)).Pairwise
      fun before after => after.isSubset before = true :=
    pairwise_hops q.specific_offered source es
  refine ⟨rfl, rfl, ?_, iff_of_false hreason hzones, fun h => absurd h hreason,
    ⟨target, hwalk.replays q.offered⟩, rfl, hnarrows, ?_, harrived, hstopped, hunconnected⟩
  · exact hallowed.trans (or_iff_left hreason).symm
  · exact hnarrows.imp fun hsubset => (ServiceSet.isSubset_iff.mp hsubset).2

theorem certified_reached (hzones : g.zone source ≠ g.zone destination) (digest : String)
    {path : List PathHop} {permitted : ServiceSet}
    (h : g.search source destination q.ends q.offered = .reached path permitted) :
    (g.verdict source destination q digest true .permitted path permitted).Certified g source
      destination := by
  obtain ⟨es, hes, hwalk, hpath, hpermitted, hsome⟩ := search_reached q.specific_offered h
  apply certified_of_walk hzones digest hwalk hpath (by simp) (by simp)
  · intro _
    obtain ⟨before, last, hhops, htarget, hservices⟩ := exists_last_hop hwalk hes q.ends q.offered
    have hspecific := specific_carried q.ends q.specific_offered es
    rw [hpermitted] at hsome
    rw [hpath, hpermitted]
    exact ⟨before, last, hhops, htarget,
      hasPair_hops source es (hspecific.exists_contains hsome), hservices.symm⟩
  · intro _ hdenied
    cases hdenied
  · intro hnone
    cases hnone

theorem certified_denied (hzones : g.zone source ≠ g.zone destination) (digest : String)
    {path : List PathHop} {reason : Reason}
    (h : g.search source destination q.ends q.offered = .denied path reason) :
    (g.verdict source destination q digest false reason path .empty).Certified g source
      destination := by
  obtain ⟨es, target, before, last, rest, hwalk, hpath, hlast, hladen, hempty, hdenial, htarget,
    hrest⟩ := search_denied_at_last q.specific_offered h
  obtain ⟨ruleSet, hdenied, hruleSet⟩ := PathHop.deniedBy_of_denial? hdenial
  have hother : ∀ other : Reason, other.deniedBy? = none → reason ≠ other := by
    rintro _ hnone rfl
    rw [hdenied] at hnone
    cases hnone
  have hpermitted := hother .permitted rfl
  apply certified_of_walk hzones digest hwalk hpath (hother .intraZone rfl) (by simp [hpermitted])
  · intro h
    exact absurd h hpermitted
  · intro other hsame
    cases Option.some.inj (hdenied.symm.trans hsame)
    exact ⟨rfl, before, last, target, rest, hlast, hladen, hempty, hruleSet, htarget, hrest⟩
  · intro h
    exact absurd h (hother .noPath rfl)

theorem certified_noPath (hzones : g.zone source ≠ g.zone destination) (q : FlowQuery)
    (digest : String) :
    (g.verdict source destination q digest false .noPath [] .empty).Certified g source
      destination := by
  apply certified_of_walk hzones digest (.nil source) rfl (by simp) (by simp)
  · intro hpermitted
    cases hpermitted
  · intro _ hdenied
    cases hdenied
  · intro _
    exact ⟨rfl, rfl⟩

/-- The answer to a question whose ends are found at two nodes. -/
def answer (g : Graph) (source destination : Fin g.size) (q : FlowQuery) (digest : String) :
    Verdict :=
  if source = destination then g.verdict source destination q digest true .intraZone [] q.offered
  else match g.search source destination q.ends q.offered with
    | .reached path permitted =>
      g.verdict source destination q digest true .permitted path permitted
    | .denied path reason => g.verdict source destination q digest false reason path .empty
    | .noPath => g.verdict source destination q digest false .noPath [] .empty

/-- A question is answered from its ends, and fails only where one is not found. -/
theorem query_eq_answer (g : Graph) (q : FlowQuery) (digest : String) :
    g.query q digest = do
      let source ← g.locate q.source q.sourceZone
      let destination ← g.locate q.destination q.destinationZone
      return g.answer source destination q digest := by
  unfold query
  congr
  funext source
  congr
  funext destination
  unfold answer
  split
  · rfl
  · cases g.search source destination q.ends q.offered <;> rfl

theorem query_eq_ok_iff {digest : String} {v : Verdict} :
    g.query q digest = .ok v ↔ ∃ source destination,
      g.locate q.source q.sourceZone = .ok source ∧
        g.locate q.destination q.destinationZone = .ok destination ∧
        v = g.answer source destination q digest := by
  rw [query_eq_answer]
  constructor
  · intro h
    obtain ⟨source, hsource, h⟩ := bind_eq_ok.mp h
    obtain ⟨destination, hdestination, h⟩ := bind_eq_ok.mp h
    cases h
    exact ⟨source, destination, hsource, hdestination, rfl⟩
  · rintro ⟨source, destination, hsource, hdestination, rfl⟩
    exact bind_eq_ok.mpr ⟨source, hsource, bind_eq_ok.mpr ⟨destination, hdestination, rfl⟩⟩

theorem query_answer (q : FlowQuery) (digest : String) :
    (g.answer source destination q digest).query = q := by
  unfold answer
  split
  · rfl
  · split
    all_goals rfl

theorem certified_answer (hzones : Function.Injective g.zone) (source destination : Fin g.size)
    (q : FlowQuery) (digest : String) :
    (g.answer source destination q digest).Certified g source destination := by
  unfold answer
  split
  · rename_i hsame
    subst hsame
    exact certified_intraZone source q digest
  · rename_i hdistinct
    have hzones' : g.zone source ≠ g.zone destination := fun hzone => hdistinct (hzones hzone)
    split
    · rename_i hsearch
      exact certified_reached hzones' digest hsearch
    · rename_i hsearch
      exact certified_denied hzones' digest hsearch
    · exact certified_noPath hzones' q digest

theorem certified_of_query (hzones : Function.Injective g.zone) {digest : String} {v : Verdict}
    (h : g.query q digest = .ok v) :
    v.query = q ∧ ∃ source destination, v.Certified g source destination := by
  obtain ⟨source, destination, _, _, rfl⟩ := query_eq_ok_iff.mp h
  exact ⟨query_answer q digest, source, destination, certified_answer hzones _ _ q digest⟩

end Graph

namespace Engine

theorem load_eq_ok_iff {s : Snapshot} {config : EngineConfig} {e : Engine} :
    load s config = .ok e ↔ s.resolve config.builtinBooks = .ok e.resolved ∧
      Graph.build e.resolved config.topology = .ok e.graph := by
  unfold load
  constructor
  · intro h
    obtain ⟨resolved, hresolved, h⟩ := bind_eq_ok.mp h
    obtain ⟨graph, hgraph, h⟩ := bind_eq_ok.mp h
    cases h
    exact ⟨mapError_eq_ok.mp hresolved, mapError_eq_ok.mp hgraph⟩
  · rintro ⟨hresolved, hgraph⟩
    apply bind_eq_ok.mpr
    refine ⟨e.resolved, mapError_eq_ok.mpr hresolved, bind_eq_ok.mpr ?_⟩
    exact ⟨e.graph, mapError_eq_ok.mpr hgraph, rfl⟩

/-- Every verdict of a loaded engine is a certificate that can be replayed on
the graph: it is allowed exactly when it is permitted or stays in one zone, its
path runs along edges from the source zone with the services that each of them
lets through, and the last hop shows why it was permitted or denied. -/
theorem query_certified {s : Snapshot} {config : EngineConfig} {e : Engine} {q : FlowQuery}
    {v : Verdict} (hload : load s config = .ok e) (hquery : e.query q = .ok v) :
    v.query = q ∧ ∃ source destination, v.Certified e.graph source destination := by
  obtain ⟨hresolve, hbuild⟩ := load_eq_ok_iff.mp hload
  obtain ⟨hfault, _, _, _, _, _, _, hresolved⟩ := Snapshot.resolve_eq_ok_iff.mp hresolve
  have hsnapshot : e.resolved.snapshot.fault? = none := by
    rw [hresolved]
    exact hfault
  exact Graph.certified_of_query (Graph.zone_injective hbuild hsnapshot) hquery

/-- A device that lets secure web traffic pass from its first zone to the second and
denies all else, and another one behind the second zone. -/
def doorway : Snapshot where
  toolRunId := none
  devices := [
    ⟨"fw", [], [⟨"in", [], none⟩, ⟨"out", [], none⟩],
      [⟨none, "in", "out", .deny,
        [⟨10, .permit, none, none, none, none, some "https", none, true, none⟩]⟩],
      [], [⟨"out", "edge", "core", false⟩]⟩,
    ⟨"edge", [], [⟨"core", [], none⟩], [], [], []⟩]
  networkBooks := []
  serviceBooks := [⟨"https", .global, [.literal ⟨some .tcp, ⟨443, 443⟩⟩], []⟩]

private def doorwayServices : ServiceSet := .ofFlow .tcp (some 443)

private def doorwayRules : ResolvedRuleSet :=
  ⟨⟨"fw", "in", "out", none⟩, .deny, [⟨10, .permit, .any, .any, doorwayServices, none⟩]⟩

private def doorwayCatalog : Catalog := ⟨.empty, .ofDistinct doorway.serviceBooks (by decide)⟩

private def doorwayTables : BookTables := ⟨.empty, ⟨[(⟨.global, "https"⟩, doorwayServices)]⟩⟩

private def doorwayDevices : List ResolvedDevice := [⟨"fw", [doorwayRules], []⟩, ⟨"edge", [], []⟩]

private def doorwayResolved : ResolvedSnapshot :=
  ⟨doorway, doorway.digest, doorwayTables, doorwayDevices⟩

private def doorwayGraph : Graph :=
  .ofArcs doorwayResolved.nodes
    [⟨⟨0, by decide⟩, ⟨⟨1, by decide⟩, .filtered doorwayRules⟩⟩,
      ⟨⟨1, by decide⟩, ⟨⟨2, by decide⟩, .transit .declared⟩⟩]

private def doorwayIn : Fin doorwayGraph.size := ⟨0, by decide⟩

private def doorwayOut : Fin doorwayGraph.size := ⟨1, by decide⟩

private def doorwayCore : Fin doorwayGraph.size := ⟨2, by decide⟩

private def doorwayConfig : EngineConfig := ⟨.explicitOnly, true, false⟩

private def doorwayQuery : FlowQuery :=
  ⟨⟨.v4, 2886729729, by decide⟩, ⟨.v4, 2887778305, by decide⟩, .tcp, none, some ⟨"fw", "in"⟩,
    some ⟨"edge", "core"⟩⟩

private def doorwayPath : List PathHop :=
  [⟨⟨"fw", "in"⟩, ⟨"fw", "out"⟩, some doorwayRules.id, .rule 10 .permit, doorwayServices⟩,
    ⟨⟨"fw", "out"⟩, ⟨"edge", "core"⟩, none, .transit .declared, doorwayServices⟩]

private theorem doorway_load :
    load doorway doorwayConfig = .ok ⟨doorwayResolved, doorwayGraph⟩ := by
  have hglobals : doorwayCatalog.resolveGlobals = .ok doorwayTables := by with_unfolding_all rfl
  have hdevices : doorway.devices.mapM (doorwayCatalog.resolveDevice doorwayTables) =
      .ok (doorwayDevices.map fun d => (d, .empty)) := by with_unfolding_all rfl
  have hresolve : doorway.resolve false = .ok doorwayResolved :=
    Snapshot.resolve_eq_ok_iff.mpr ⟨by decide, _, doorwayTables, _, rfl, hglobals, hdevices, rfl⟩
  exact load_eq_ok_iff.mpr ⟨hresolve, rfl⟩

/-- All ports are offered, one gets through the rule set, and the link lets it on. -/
private theorem doorway_search :
    doorwayGraph.search doorwayIn doorwayCore doorwayQuery.ends doorwayQuery.offered =
      .reached doorwayPath doorwayServices := by
  have hentry : doorwayGraph.leaving doorwayIn = [⟨doorwayOut, .filtered doorwayRules⟩] :=
    Graph.leaving_ofArcs_of_ascending (by decide)
  have hexit : doorwayGraph.leaving doorwayOut = [⟨doorwayCore, .transit .declared⟩] :=
    Graph.leaving_ofArcs_of_ascending (by decide)
  have hlast : doorwayGraph.Walk doorwayOut _ doorwayCore :=
    .single (hexit ▸ List.mem_singleton_self _)
  have hwalk : doorwayGraph.Walk doorwayIn _ doorwayCore :=
    .cons (hentry ▸ List.mem_singleton_self _) hlast
  refine Graph.search_of_runs hwalk.mem_nodesReaching hentry
    (.tail (.single (.fresh ?_ ?_ ?_ ?_)) .turn) ?_
  · exact hlast.mem_nodesReaching
  · decide
  · decide
  · decide
  · change Search.Final _ ⟨_, doorwayGraph.leaving doorwayOut, _, _, _⟩ _
    rw [hexit]
    exact .arrived (Graph.mem_nodesReaching_self doorwayCore) (by decide) rfl

private theorem doorway_query :
    query ⟨doorwayResolved, doorwayGraph⟩ doorwayQuery =
      .ok (doorwayGraph.verdict doorwayIn doorwayCore doorwayQuery doorway.digest true
        .permitted doorwayPath doorwayServices) := by
  have hne : doorwayIn ≠ doorwayCore := by decide
  refine Graph.query_eq_ok_iff.mpr ⟨doorwayIn, doorwayCore, rfl, rfl, ?_⟩
  unfold Graph.answer
  rw [if_neg hne, doorway_search]
  rfl

theorem doorway_certified :
    ∃ e v first last, load doorway doorwayConfig = .ok e ∧ e.query doorwayQuery = .ok v ∧
      v.path = [first, last] ∧
      first.services = (doorwayRules.evaluateServices doorwayQuery.source doorwayQuery.destination
        doorwayQuery.offered).permitted ∧
      first.services = .ofFlow .tcp (some 443) ∧ first.services ≠ doorwayQuery.offered ∧
      last.ruleSet = none ∧ last.services = first.services ∧
      v.query = doorwayQuery ∧ ∃ source destination, v.Certified e.graph source destination :=
  ⟨_, _, _, _, doorway_load, doorway_query, rfl, rfl, rfl, by decide, rfl, rfl,
    query_certified doorway_load doorway_query⟩

end Engine

end Perimeter
