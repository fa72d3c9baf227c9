import Perimeter.Proofs.Reachability.Trail
import Perimeter.Proofs.Topology.Build

/-!
Where a reported denial lies. Its path follows edges from the source and leaves
no zone twice, and from the zone behind the denying hop some walk leads to the
destination. That walk is one in the whole graph: it may lead back through the
zones of the path, and then no loop-free route runs over the denying hop.
-/

namespace Perimeter

namespace Graph

variable {g : Graph} {source destination : Fin g.size} {ends : Ends} {offered : ServiceSet}

/-- A denial is found at the end of a walk whose stops before the last edge are
distinct. The last edge lets nothing of the offer through, and its target
reaches the destination. -/
theorem search_denied (hoffered : offered.Specific) {path : List PathHop} {reason : Reason}
    (h : g.search source destination ends offered = .denied path reason) :
    ∃ es e, g.Walk source (es ++ [e]) e.target ∧
      path = g.hops ends source offered (es ++ [e]) ∧ (g.stops source es).Nodup ∧
      e.target ∈ g.nodesReaching destination ∧
      (carried ends offered (es ++ [e])).isEmpty = true := by
  by_cases hreach : source ∈ g.nodesReaching destination
  · obtain ⟨m, hruns, hfinal⟩ := search_final ends offered hreach
    have hbacked := Search.Runs.backed hoffered hruns
    rw [h] at hfinal
    cases hfinal with
    | denied =>
      obtain ⟨es, e, hdenial⟩ := hbacked.denial _ rfl
      exact ⟨es, e, hdenial.walk, hdenial.path, hdenial.nodup, hdenial.reaching, hdenial.nothing⟩
  · rw [search_of_not_mem ends offered hreach] at h
    cases h

/-- A reported denial lies on a walk to the destination. Its path follows edges
from the source and leaves no zone twice, its last hop lets nothing through,
and edges lead on from there to the destination without coming to a zone twice. -/
theorem search_denied_on_walk {s : ResolvedSnapshot} {inference : Inference} {g : Graph}
    (hbuild : build s inference = .ok g) (source destination : Fin g.size) (ends : Ends)
    (p : Protocol) (ports : PortSet) {path : List PathHop} {reason : Reason}
    (h : g.search source destination ends (.ofProtocol p ports) = .denied path reason) :
    ∃ es e rest, g.Walk source (es ++ [e]) e.target ∧
      path = g.hops ends source (.ofProtocol p ports) (es ++ [e]) ∧
      (carried ends (.ofProtocol p ports) (es ++ [e])).isEmpty = true ∧
      (path.map (·.source)).Nodup ∧
      g.Walk e.target rest destination ∧ ((g.stops e.target rest).map g.zone).Nodup := by
  obtain ⟨es, e, hwalk, rfl, hnodup, hreaching, hnothing⟩ :=
    search_denied (ServiceSet.specific_ofProtocol p ports) h
  obtain ⟨detour, hdetour⟩ := mem_nodesReaching_iff.mp hreaching
  obtain ⟨rest, hrest, honce⟩ := hdetour.exists_nodup
  obtain ⟨hstart, hlast⟩ := hwalk.foremost_ends hbuild
  refine ⟨es, e, rest, hwalk, rfl, hnothing, ?_, hrest, ?_⟩
  · have hdrop : (g.stops source (es ++ [e])).dropLast = g.stops source es := by
      rw [stops_snoc, List.dropLast_concat]
    rw [map_source_hops, hdrop]
    refine nodup_map_zone hnodup fun k hk => hwalk.foremost hbuild hstart k ?_
    rw [stops_snoc]
    exact List.mem_append_left _ hk
  · exact nodup_map_zone honce (hrest.foremost hbuild hlast)

/-- A path can be completed to a route that comes to no zone twice: the zones
that its hops leave are distinct, and from the zone behind its last hop, which
is none of them, edges lead to the destination past all of them. -/
def CompletesLoopFree (g : Graph) (path : List PathHop) (destination : Fin g.size) : Prop :=
  (path.map (·.source)).Nodup ∧
    ∃ hop i rest, path.getLast? = some hop ∧ g.zone i = hop.target ∧
      g.Walk i rest destination ∧ ∀ k ∈ g.stops i rest, g.zone k ∉ path.map (·.source)

/-- A device that lets traffic from its first zone to the second, and denies it
on the way back as well as on the way to the third. -/
def twoWayDevice : Device where
  id := "fw"
  interfaces := []
  zones := [⟨"in", [], none⟩, ⟨"dmz", [], none⟩, ⟨"out", [], none⟩]
  ruleSets := [⟨none, "in", "dmz", .permit, []⟩, ⟨none, "dmz", "in", .deny, []⟩,
    ⟨none, "dmz", "out", .deny, []⟩]
  routes := []
  adjacencies := []

def twoWaySnapshot : ResolvedSnapshot where
  snapshot := ⟨none, [twoWayDevice], [], []⟩
  digest := ""
  books := .empty
  devices := [⟨"fw", twoWayDevice.ruleSets.map fun rs => ⟨rs.id "fw", rs.defaultAction, []⟩, []⟩]

private def twoWayArc (source target : Fin 3) (fromZone toZone : String) (action : Action) :
    Arc twoWaySnapshot.nodes.length :=
  ⟨source, target, .filtered ⟨⟨"fw", fromZone, toZone, none⟩, action, []⟩⟩

def twoWay : Graph :=
  ofArcs twoWaySnapshot.nodes
    [twoWayArc 0 1 "in" "dmz" .permit, twoWayArc 1 0 "dmz" "in" .deny,
      twoWayArc 1 2 "dmz" "out" .deny]

private def twoWayNode (i : Fin 3) : Fin twoWay.size := i

private def twoWayEnds : Ends := ⟨⟨.v4, 167772161, by decide⟩, ⟨.v4, 168361985, by decide⟩⟩

private def twoWayOffer : ServiceSet := .ofProtocol .tcp (.single 80)

private def twoWayHops : List PathHop :=
  [⟨⟨"fw", "in"⟩, ⟨"fw", "dmz"⟩, some ⟨"fw", "in", "dmz", none⟩, .default .permit, twoWayOffer⟩,
    ⟨⟨"fw", "dmz"⟩, ⟨"fw", "in"⟩, some ⟨"fw", "dmz", "in", none⟩, .default .deny, .empty⟩]

private def twoWayReason : Reason := .deniedByDefault ⟨"fw", "dmz", "in", none⟩

private def twoWayIn : Edge twoWay.size :=
  ⟨twoWayNode 1, .filtered ⟨⟨"fw", "in", "dmz", none⟩, .permit, []⟩⟩

private def twoWayBack : Edge twoWay.size :=
  ⟨twoWayNode 0, .filtered ⟨⟨"fw", "dmz", "in", none⟩, .deny, []⟩⟩

private def twoWayOn : Edge twoWay.size :=
  ⟨twoWayNode 2, .filtered ⟨⟨"fw", "dmz", "out", none⟩, .deny, []⟩⟩

/-- The search at its visit of the second zone. -/
private def twoWayVisit (edges : List (Edge twoWay.size)) (denial : Option Search.Denial) :
    Search.Moment twoWay where
  visit := ⟨twoWayNode 1, twoWayOffer, twoWayHops.take 1⟩
  edges := edges
  queue := []
  explored :=
    ((Explored.nothing twoWay.size).add (twoWayNode 0) twoWayOffer).add (twoWayNode 1) twoWayOffer
  denial := denial

private theorem twoWay_build : build twoWaySnapshot .explicitOnly = .ok twoWay := rfl

/-- The first denial that the search meets is on the way back. -/
private theorem twoWay_denied :
    twoWay.search (twoWayNode 0) (twoWayNode 2) twoWayEnds twoWayOffer =
      .denied twoWayHops twoWayReason := by
  have hin : twoWay.leaving (twoWayNode 0) = [twoWayIn] :=
    leaving_ofArcs_of_ascending (by decide)
  have hdmz : twoWay.leaving (twoWayNode 1) = [twoWayBack, twoWayOn] :=
    leaving_ofArcs_of_ascending (by decide)
  have hrest : twoWay.Walk (twoWayNode 1) [twoWayOn] (twoWayNode 2) :=
    .single (hdmz ▸ List.mem_cons_of_mem _ List.mem_cons_self)
  have hwalk : twoWay.Walk (twoWayNode 0) _ (twoWayNode 2) :=
    .cons (hin ▸ List.mem_singleton_self _) hrest
  let task := Search.Task.toward twoWay (twoWayNode 2) twoWayEnds
  have hopening : Search.Runs task ⟨⟨twoWayNode 0, twoWayOffer, []⟩, [twoWayIn], [],
      (Explored.nothing twoWay.size).add (twoWayNode 0) twoWayOffer, none⟩
      (twoWayVisit (twoWay.leaving (twoWayNode 1)) none) := by
    refine .tail (.single (.fresh ?_ ?_ ?_ ?_)) .turn
    · exact hrest.mem_nodesReaching
    · decide
    · decide
    · decide
  have hfirst : Search.Advance task (twoWayVisit [twoWayBack, twoWayOn] none)
      (twoWayVisit [twoWayOn] (some ⟨twoWayHops, twoWayReason⟩)) :=
    .refused hwalk.mem_nodesReaching (by decide)
  have hsecond : Search.Advance task (twoWayVisit [twoWayOn] (some ⟨twoWayHops, twoWayReason⟩))
      (twoWayVisit [] (some ⟨twoWayHops, twoWayReason⟩)) :=
    .refused (mem_nodesReaching_self _) (by decide)
  rw [hdmz] at hopening
  exact search_of_runs hwalk.mem_nodesReaching hin ((hopening.tail hfirst).tail hsecond) .denied

theorem twoWay_denied_on_walk :
    ∃ es e rest, twoWay.Walk (twoWayNode 0) (es ++ [e]) e.target ∧
      twoWayHops = twoWay.hops twoWayEnds (twoWayNode 0) twoWayOffer (es ++ [e]) ∧
      (carried twoWayEnds twoWayOffer (es ++ [e])).isEmpty = true ∧
      (twoWayHops.map (·.source)).Nodup ∧
      twoWay.Walk e.target rest (twoWayNode 2) ∧
      ((twoWay.stops e.target rest).map twoWay.zone).Nodup :=
  search_denied_on_walk twoWay_build _ _ _ _ _ twoWay_denied

/-- The denial on the way back cannot be completed without a loop: its last hop
leads to the zone that its first hop leaves. -/
theorem twoWay_denied_on_loop :
    build twoWaySnapshot .explicitOnly = .ok twoWay ∧ twoWayNode 0 ≠ twoWayNode 2 ∧
      ¬twoWayOffer.isEmpty = true ∧
      twoWay.search (twoWayNode 0) (twoWayNode 2) twoWayEnds twoWayOffer =
        .denied twoWayHops twoWayReason ∧
      ¬twoWay.CompletesLoopFree twoWayHops (twoWayNode 2) := by
  refine ⟨twoWay_build, by decide, by decide, twoWay_denied, ?_⟩
  rintro ⟨_, hop, i, rest, hlast, hzone, _, hpast⟩
  cases hlast
  refine hpast i List.mem_cons_self ?_
  rw [hzone]
  exact List.mem_cons_self

end Graph

end Perimeter
