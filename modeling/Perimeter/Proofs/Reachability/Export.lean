import Perimeter.Proofs.Reachability.Legs
import Perimeter.Proofs.Reachability.Routes
import Perimeter.Proofs.Rule.Envelope
import Perimeter.Topology.Export

/-!
The exported graph, held against the answers. Every hop of an answer runs along an
exported edge, and the services that it lets through are among those exported with
that edge. So nothing ever gets through an edge that is exported as closed.
-/

namespace Perimeter

/-- The edge runs between the zones of a hop, under the same rule set or like it
under none. -/
structure ExportedEdge.Shows (x : ExportedEdge) (hop : PathHop) : Prop where
  source : x.source = hop.source
  target : x.target = hop.target
  ruleSet : x.ruleSet = hop.ruleSet

namespace Graph

variable {g : Graph}

theorem mem_edges_toExport {x : ExportedEdge} :
    x ∈ g.toExport.edges ↔ ∃ i, ∃ e ∈ g.leaving i, g.exportEdge i e = x := by
  simp [toExport]

/-- Of a pair that an edge lets through, the exported edge shows the service. -/
theorem contains_exportEdge_of_passed (i : Fin g.size) (e : Edge g.size) {ends : Ends}
    {arriving : ServiceSet} {p : Protocol} {port : UInt16}
    (h : (e.kind.passed ends arriving).contains p port = true) :
    (g.exportEdge i e).services.contains p port = true := by
  obtain ⟨_, hadmits⟩ := (e.kind.contains_passed_iff ends arriving p port).mp h
  unfold exportEdge
  cases hkind : e.kind with
  | filtered rs =>
    rw [hkind] at hadmits
    exact rs.contains_envelope_of_evaluate hadmits
  | transit reason => exact ServiceSet.contains_any p port

/-- What specific services become over an edge lies within what is exported. -/
theorem isSubset_exportEdge (i : Fin g.size) (e : Edge g.size) (ends : Ends)
    {arriving : ServiceSet} (h : arriving.Specific) :
    (e.kind.passed ends arriving).isSubset (g.exportEdge i e).services = true :=
  ((e.kind.specific_passed ends h).isSubset_iff _).mpr fun _ _ =>
    contains_exportEdge_of_passed i e

/-- No pair gets through an edge that is exported as closed. -/
theorem contains_passed_of_closed {i : Fin g.size} {e : Edge g.size}
    (hclosed : (g.exportEdge i e).permitted = false) (ends : Ends) (arriving : ServiceSet)
    (p : Protocol) (port : UInt16) : (e.kind.passed ends arriving).contains p port = false := by
  have hempty : (g.exportEdge i e).services.isEmpty = true := by
    simpa [ExportedEdge.permitted] using hclosed
  have hnone := ServiceSet.not_contains_of_isEmpty hempty p port
  apply Bool.eq_false_iff.mpr
  intro h
  exact Bool.eq_false_iff.mp hnone (contains_exportEdge_of_passed i e h)

/-- Of specific services nothing is left beyond an edge that is exported as closed. -/
theorem passed_eq_empty_of_closed {i : Fin g.size} {e : Edge g.size}
    (hclosed : (g.exportEdge i e).permitted = false) (ends : Ends) {arriving : ServiceSet}
    (h : arriving.Specific) : e.kind.passed ends arriving = .empty := by
  apply ServiceSet.eq_empty_of_isEmpty
  exact (e.kind.specific_passed ends h).isEmpty_iff.mpr
    (contains_passed_of_closed hclosed ends arriving)

theorem exportEdge_shows (i : Fin g.size) (e : Edge g.size) (ends : Ends)
    (arriving : ServiceSet) : (g.exportEdge i e).Shows (g.cross i e ends arriving) := by
  unfold exportEdge
  cases hkind : e.kind with
  | filtered rs => exact ⟨rfl, rfl, by rw [cross, hkind]; rfl⟩
  | transit reason => exact ⟨rfl, rfl, by rw [cross, hkind]; rfl⟩

/-- Where zones tell nodes apart and edges between two nodes differ in whether a rule
set governs them, a hop is shown by no edge but the one that it is made over. -/
theorem exportEdge_eq_of_shows (hzones : Function.Injective g.zone)
    (hedges : ∀ {i : Fin g.size} {e f : Edge g.size}, e ∈ g.leaving i → f ∈ g.leaving i →
      e.target = f.target → e.isFiltered = f.isFiltered → e = f)
    {i j : Fin g.size} {e f : Edge g.size} (he : e ∈ g.leaving i) (hf : f ∈ g.leaving j)
    {ends : Ends} {arriving : ServiceSet}
    (h : (g.exportEdge j f).Shows (g.cross i e ends arriving)) :
    g.exportEdge j f = g.exportEdge i e := by
  have hown := exportEdge_shows j f ends arriving
  have hsource : g.zone j = g.zone i := hown.source.symm.trans h.source
  have htarget : g.zone f.target = g.zone e.target := hown.target.symm.trans h.target
  have hruleSet : f.kind.ruleSetId? = e.kind.ruleSetId? := hown.ruleSet.symm.trans h.ruleSet
  obtain rfl := hzones hsource
  have hfiltered : f.isFiltered = e.isFiltered := by
    rw [Edge.isFiltered_eq_isSome, Edge.isFiltered_eq_isSome, hruleSet]
  rw [hedges hf he (hzones htarget) hfiltered]

end Graph

/-- What a graph exports about a hop: the edge that it runs along, with no fewer
services than it lets through. -/
structure GraphExport.Bounds (x : GraphExport) (hop : PathHop) : Prop where
  shown : ∃ edge ∈ x.edges, edge.Shows hop
  services : ∀ edge ∈ x.edges, edge.Shows hop → hop.services.isSubset edge.services = true
  closed : ∀ edge ∈ x.edges, edge.Shows hop → edge.permitted = false → hop.services = .empty

namespace Engine

variable {s : Snapshot} {config : EngineConfig} {e : Engine}

/-- The hops of an answer are made over exported edges, within their services. -/
theorem bounds_of_query (hload : load s config = .ok e) {q : FlowQuery} {v : Verdict}
    (hquery : e.query q = .ok v) : ∀ hop ∈ v.path, e.graph.toExport.Bounds hop := by
  obtain ⟨hzones, hedges⟩ := distinct_of_load hload
  obtain ⟨_, _, _, hcertified⟩ := Graph.certified_of_query hzones hquery
  intro hop hhop
  rw [← v.map_snd_legs] at hhop
  obtain ⟨⟨arriving, hop⟩, hleg, rfl⟩ := List.mem_map.mp hhop
  obtain ⟨hcarries, i, edge, hedge, hcross⟩ := hcertified.legs _ hleg
  dsimp only at hcarries hcross ⊢
  rw [hcross]
  have hsame : ∀ x ∈ e.graph.toExport.edges, x.Shows (e.graph.cross i edge v.query.ends arriving) →
      x = e.graph.exportEdge i edge := by
    intro x hx hshows
    obtain ⟨j, other, hother, rfl⟩ := Graph.mem_edges_toExport.mp hx
    exact Graph.exportEdge_eq_of_shows hzones hedges hedge hother hshows
  refine ⟨⟨_, Graph.mem_edges_toExport.mpr ⟨i, edge, hedge, rfl⟩, ?_⟩, ?_, ?_⟩
  · exact Graph.exportEdge_shows i edge v.query.ends arriving
  · intro x hx hshows
    rw [hsame x hx hshows]
    exact Graph.isSubset_exportEdge i edge v.query.ends hcarries.specific
  · intro x hx hshows hclosed
    rw [hsame x hx hshows] at hclosed
    exact Graph.passed_eq_empty_of_closed hclosed v.query.ends hcarries.specific

/-- The services exported with an edge bound all flows over it. They hold what its
rule set permits between any two addresses, and nothing else if all its rules cover
every address. An answer of a loaded engine stays within them from hop to hop, and no
pair gets through an edge that is exported as closed. -/
theorem export_bounds_flows :
    (∀ (rs : ResolvedRuleSet) (source destination : Address) (p : Protocol) (port : UInt16),
      (rs.evaluate ⟨source, destination, p, some port⟩).1 = .permit →
        rs.envelope.contains p port = true) ∧
    (∀ rs : ResolvedRuleSet, (∀ rule ∈ rs.rules, rule.CoversAllAddresses) →
      ∀ (source destination : Address) (p : Protocol) (port : UInt16),
        rs.envelope.contains p port = true ↔
          (rs.evaluate ⟨source, destination, p, some port⟩).1 = .permit) ∧
    ∀ (s : Snapshot) (config : EngineConfig) (e : Engine), load s config = .ok e →
      (∀ q v, e.query q = .ok v → ∀ hop ∈ v.path, e.graph.toExport.Bounds hop) ∧
      ∀ i, ∀ edge ∈ e.graph.leaving i, (e.graph.exportEdge i edge).permitted = false →
        ∀ (ends : Ends) (arriving : ServiceSet) (p : Protocol) (port : UInt16),
          (edge.kind.passed ends arriving).contains p port = false := by
  refine ⟨?_, ?_, ?_⟩
  · intro rs source destination p port hpermit
    exact rs.contains_envelope_of_evaluate hpermit
  · intro rs hall source destination p port
    exact rs.contains_envelope_iff_evaluate hall source destination p port
  · intro s config e hload
    constructor
    · intro q v hquery
      exact bounds_of_query hload hquery
    · intro i edge _ hclosed ends arriving
      exact Graph.contains_passed_of_closed hclosed ends arriving

/-- A device that lets one protocol pass from its first zone to the second, and nothing
back. -/
def sluiceLock : Device where
  id := "lock"
  interfaces := []
  zones := [⟨"upper", [], none⟩, ⟨"lower", [], none⟩]
  ruleSets := [
    ⟨none, "upper", "lower", .deny,
      [⟨5, .permit, none, none, none, none, none, some .udp, true, none⟩]⟩,
    ⟨none, "lower", "upper", .deny, []⟩]
  routes := []
  adjacencies := []

def sluice : Snapshot := ⟨none, [sluiceLock], [], []⟩

private def sluiceDown : ResolvedRuleSet :=
  ⟨⟨"lock", "upper", "lower", none⟩, .deny,
    [⟨5, .permit, .any, .any, ServiceSet.any.restrictTo .udp, none⟩]⟩

private def sluiceUp : ResolvedRuleSet := ⟨⟨"lock", "lower", "upper", none⟩, .deny, []⟩

private def sluiceRules : ResolvedDevice := ⟨"lock", [sluiceDown, sluiceUp], []⟩

private def sluiceResolved : ResolvedSnapshot := ⟨sluice, sluice.digest, .empty, [sluiceRules]⟩

private def sluiceGraph : Graph :=
  .ofArcs (sluiceRules.nodes sluiceLock) [⟨⟨0, by decide⟩, ⟨⟨1, by decide⟩, .filtered sluiceDown⟩⟩,
    ⟨⟨1, by decide⟩, ⟨⟨0, by decide⟩, .filtered sluiceUp⟩⟩]

private def sluiceConfig : EngineConfig := ⟨.explicitOnly, true, false⟩

private theorem sluice_load : load sluice sluiceConfig = .ok ⟨sluiceResolved, sluiceGraph⟩ := by
  have hresolve : sluice.resolve false = .ok sluiceResolved :=
    Snapshot.resolve_eq_ok_iff.mpr ⟨by decide, ⟨.empty, .empty⟩, .empty,
      [(sluiceRules, .empty)], rfl, rfl, rfl, rfl⟩
  exact load_eq_ok_iff.mpr ⟨hresolve, rfl⟩

private def sluiceUpper : Fin sluiceGraph.size := ⟨0, by decide⟩

private def sluiceLower : Fin sluiceGraph.size := ⟨1, by decide⟩

private def sluiceQuery : FlowQuery :=
  ⟨⟨.v4, 2887057409, by decide⟩, ⟨.v4, 2887122945, by decide⟩, .udp, some 53,
    some ⟨"lock", "upper"⟩, some ⟨"lock", "lower"⟩⟩

private def sluiceHop : PathHop where
  source := ⟨"lock", "upper"⟩
  target := ⟨"lock", "lower"⟩
  ruleSet := some ⟨"lock", "upper", "lower", none⟩
  decision := .rule 5 .permit
  services := .ofFlow .udp (some 53)

private theorem sluice_search :
    sluiceGraph.search sluiceUpper sluiceLower sluiceQuery.ends sluiceQuery.offered =
      .reached [sluiceHop] (.ofFlow .udp (some 53)) := by
  have hdown : sluiceGraph.leaving sluiceUpper = [⟨sluiceLower, .filtered sluiceDown⟩] :=
    Graph.leaving_ofArcs_of_ascending (by decide)
  have hwalk : sluiceGraph.Walk sluiceUpper _ sluiceLower :=
    .single (hdown ▸ List.mem_singleton_self _)
  refine Graph.search_of_runs hwalk.mem_nodesReaching hdown .refl (.arrived ?_ ?_ rfl)
  · exact Graph.mem_nodesReaching_self sluiceLower
  · decide

private theorem sluice_query :
    query ⟨sluiceResolved, sluiceGraph⟩ sluiceQuery = .ok (sluiceGraph.verdict sluiceUpper
      sluiceLower sluiceQuery sluice.digest true .permitted [sluiceHop]
      (.ofFlow .udp (some 53))) := by
  have hanswer : sluiceGraph.answer sluiceUpper sluiceLower sluiceQuery sluice.digest =
      sluiceGraph.verdict sluiceUpper sluiceLower sluiceQuery sluice.digest true .permitted
        [sluiceHop] (.ofFlow .udp (some 53)) := by
    have hne : sluiceUpper ≠ sluiceLower := by decide
    unfold Graph.answer
    rw [if_neg hne, sluice_search]
  exact Graph.query_eq_ok_iff.mpr ⟨sluiceUpper, sluiceLower, rfl, rfl, hanswer.symm⟩

theorem sluice_bounded :
    ∃ e v hop, load sluice sluiceConfig = .ok e ∧ e.query sluiceQuery = .ok v ∧ v.path = [hop] ∧
      e.graph.toExport.Bounds hop ∧
      ∃ i, ∃ edge ∈ e.graph.leaving i, (e.graph.exportEdge i edge).permitted = false ∧
        ∀ (ends : Ends) (arriving : ServiceSet) (p : Protocol) (port : UInt16),
          (edge.kind.passed ends arriving).contains p port = false := by
  obtain ⟨_, _, hengine⟩ := export_bounds_flows
  obtain ⟨hbounds, hclosed⟩ := hengine _ _ _ sluice_load
  have hback : (⟨sluiceUpper, .filtered sluiceUp⟩ : Edge sluiceGraph.size) ∈
      sluiceGraph.leaving sluiceLower :=
    Graph.mem_leaving_ofArcs.mpr ⟨_, .tail _ (.head _), rfl, rfl⟩
  have hshut : (sluiceGraph.exportEdge sluiceLower ⟨sluiceUpper, .filtered sluiceUp⟩).permitted =
      false := by decide
  exact ⟨_, _, sluiceHop, sluice_load, sluice_query, rfl,
    hbounds _ _ sluice_query sluiceHop (List.mem_singleton_self _), sluiceLower, _, hback, hshut,
    hclosed sluiceLower _ hback hshut⟩

end Engine

end Perimeter
