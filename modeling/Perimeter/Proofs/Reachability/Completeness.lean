import Perimeter.Proofs.Reachability.Relay

/-!
A search finds a path exactly when one walk to the destination admits one of
the offered flows all the way. What arrives has come along a walk, which gives
the one direction. For the other, follow one pair of protocol and port: every
node that has seen it either still has a visit or an edge to be followed with
it, or has passed it on over all edges that admit it and can lead to the
destination. When nothing is left to be followed, the nodes that have seen the
pair are closed under such edges, so they would include the destination.
-/

namespace Perimeter

namespace Search

variable {g : Graph} {task : Task g} {source : Fin g.size} {offered : ServiceSet}

/-- At every moment of a search one pair is passed on over the edges that admit it. -/
theorem Runs.relays_contains {m : Moment g} (h : Runs task (opening g source offered) m)
    (p : Protocol) (port : UInt16) :
    m.Relays task (fun s => s.contains p port = true)
      fun e => e.kind.Admits (task.ends.flow p port) := by
  induction h with
  | refl => exact relays_opening (cargo_contains p port) task _ source offered
  | tail _ hstep ih =>
    apply ih.advance (cargo_contains p port) hstep
    intro e _ _ hin hadmits
    exact Visit.contains_along.mpr ⟨hin, hadmits⟩

end Search

namespace Graph

variable {g : Graph} {source destination : Fin g.size} {ends : Ends} {offered : ServiceSet}

/-- A path that is found runs along a walk to the destination; what arrives is
what the walk leaves of the offer, and that is something. -/
theorem search_reached (hoffered : offered.Specific) {path : List PathHop}
    {permitted : ServiceSet}
    (h : g.search source destination ends offered = .reached path permitted) :
    ∃ es, es ≠ [] ∧ g.Walk source es destination ∧ path = g.hops ends source offered es ∧
      permitted = carried ends offered es ∧ permitted.isEmpty = false := by
  by_cases hreach : source ∈ g.nodesReaching destination
  · obtain ⟨m, hruns, hfinal⟩ := search_final ends offered hreach
    have hbacked := Search.Runs.backed hoffered hruns
    rw [h] at hfinal
    cases hfinal with
    | @arrived v e es queue explored denial hreach' hsome hthere =>
      obtain ⟨walked, hvisit⟩ := hbacked.visit
      have hwalk := hvisit.walk.snoc (hbacked.edges e List.mem_cons_self)
      rw [hthere] at hwalk
      refine ⟨walked ++ [e], by simp, hwalk, hvisit.trail_along e, hvisit.services_along e, ?_⟩
      exact Bool.eq_false_iff.mpr hsome
  · rw [search_of_not_mem ends offered hreach] at h
    cases h

/-- If no path is found, no walk admits one of the offered flows all the way. -/
theorem not_admitted_of_not_reached (hne : source ≠ destination)
    (h : ∀ path permitted, g.search source destination ends offered ≠ .reached path permitted)
    {es : List (Edge g.size)} (hwalk : g.Walk source es destination) {p : Protocol}
    {port : UInt16} (hin : offered.contains p port = true) :
    ¬∀ e ∈ es, e.kind.Admits (ends.flow p port) := by
  intro hadmits
  have hreach : source ∈ g.nodesReaching destination := hwalk.mem_nodesReaching
  obtain ⟨m, hruns, hfinal⟩ := search_final ends offered hreach
  have hrelays := hruns.relays_contains p port
  have hseen : (m.explored.seen source).contains p port = true :=
    hruns.has_seen (Search.cargo_contains p port)
      ((Explored.contains_seen_add _ source source offered p port).mpr (Or.inr ⟨rfl, hin⟩))
  generalize g.search source destination ends offered = outcome at h hfinal
  cases hfinal with
  | arrived => exact h _ _ rfl
  | denied => exact hrelays.no_walk rfl rfl hwalk hne hseen hadmits
  | exhausted => exact hrelays.no_walk rfl rfl hwalk hne hseen hadmits

/-- The search is sound and complete on every graph: between distinct nodes it
finds a path for the services that a question offers exactly when some walk
admits one of the offered pairs of protocol and port on each of its edges. -/
theorem search_reached_iff (g : Graph) (source destination : Fin g.size)
    (hne : source ≠ destination) (ends : Ends) (protocol : Protocol) (port? : Option UInt16) :
    (∃ path permitted,
        g.search source destination ends (.ofFlow protocol port?) = .reached path permitted) ↔
      ∃ es p port, es ≠ [] ∧ g.Walk source es destination ∧
        (ServiceSet.ofFlow protocol port?).contains p port = true ∧
        ∀ e ∈ es, e.kind.Admits (ends.flow p port) := by
  have hspecific := ServiceSet.specific_ofFlow protocol port?
  constructor
  · rintro ⟨path, permitted, h⟩
    obtain ⟨es, hes, hwalk, _, rfl, hsome⟩ := search_reached hspecific h
    obtain ⟨p, port, hcarried⟩ := (specific_carried ends hspecific es).exists_contains hsome
    obtain ⟨hin, hadmits⟩ := (contains_carried_iff ends _ es p port).mp hcarried
    exact ⟨es, p, port, hes, hwalk, hin, hadmits⟩
  · rintro ⟨es, p, port, _, hwalk, hin, hadmits⟩
    refine Classical.byContradiction fun hnot => ?_
    refine not_admitted_of_not_reached hne ?_ hwalk hin hadmits
    intro path permitted h
    exact hnot ⟨path, permitted, h⟩

/-- A rule set that permits one port and denies everything else. -/
private def onlyPort (fromZone toZone : String) (port : UInt16) : ResolvedRuleSet where
  id := ⟨"fw", fromZone, toZone, none⟩
  defaultAction := .deny
  rules := [⟨1, .permit, .any, .any, .ofFlow .tcp (some port), none⟩]

/-- Four zones with a loop at the first, two edges to the second of which one
denies what the other lets through, an edge back, and one to a dead end. -/
def winding : Graph where
  size := 4
  nodes := #v[⟨⟨"fw", "in"⟩, .empty⟩, ⟨⟨"fw", "mid"⟩, .empty⟩, ⟨⟨"fw", "out"⟩, .empty⟩,
    ⟨⟨"fw", "side"⟩, .empty⟩]
  edges := #v[[⟨0, .transit .declared⟩, ⟨1, .filtered (onlyPort "in" "mid" 22)⟩,
    ⟨1, .transit .declared⟩], [⟨0, .transit .declared⟩, ⟨2, .filtered (onlyPort "mid" "out" 443)⟩,
    ⟨3, .transit .declared⟩], [], []]

private def someEnds : Ends := ⟨⟨.v4, 0, by decide⟩, ⟨.v4, 1, by decide⟩⟩

private def windingNode (n : Nat) (h : n < 4) : Fin winding.size := ⟨n, h⟩

theorem winding_reached :
    windingNode 0 (by decide) ≠ windingNode 2 (by decide) ∧
      ∃ path permitted, winding.search (windingNode 0 (by decide)) (windingNode 2 (by decide))
        someEnds (.ofFlow .tcp none) = .reached path permitted := by
  refine ⟨by decide, (search_reached_iff winding _ _ (by decide) someEnds .tcp none).mpr ?_⟩
  refine ⟨[⟨windingNode 1 (by decide), .transit .declared⟩,
    ⟨windingNode 2 (by decide), .filtered (onlyPort "mid" "out" 443)⟩], .tcp, 443, by simp,
    .cons ?_ (.cons ?_ (.nil _)), by decide, ?_⟩
  · exact .tail _ (.tail _ (.head _))
  · exact .tail _ (.head _)
  · intro e he
    rcases List.mem_cons.mp he with rfl | he
    · exact trivial
    · rw [List.mem_singleton] at he
      subst he
      decide

end Graph

end Perimeter
