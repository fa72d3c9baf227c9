import Perimeter.Proofs.Book.Catalog
import Perimeter.Proofs.Reachability.Earliest
import Perimeter.Proofs.Topology.Listing

/-!
The path that a search reports is the canonical one. No walk with fewer edges
lets anything through, and of the walks with as many it is the one that comes
first edge by edge, as the nodes list their edges: by target, and of the edges
to one target those of rule sets before links. Where no node has two edges to
one target, this is the walk with the lexicographically least nodes.
-/

namespace Perimeter

namespace Graph

/-- Two walks from a node have the same edges up to a node that lists the next
edge of the first one before that of the second. -/
inductive Ahead (g : Graph) : Fin g.size → List (Edge g.size) → List (Edge g.size) → Prop where
  | here {i : Fin g.size} {p q : Nat} {e f : Edge g.size} {es fs : List (Edge g.size)}
      (hlt : p < q) (he : (g.leaving i)[p]? = some e) (hf : (g.leaving i)[q]? = some f) :
      Ahead g i (e :: es) (f :: fs)
  | later {i : Fin g.size} {e : Edge g.size} {es fs : List (Edge g.size)}
      (h : Ahead g e.target es fs) : Ahead g i (e :: es) (e :: fs)

variable {g : Graph} {i j k : Fin g.size} {ps qs : List Nat} {es fs : List (Edge g.size)}

/-- A walk whose positions are lower from some place on is ahead. -/
theorem Itinerary.ahead (h : g.Itinerary i ps es j) (h' : g.Itinerary i qs fs k)
    (hlength : ps.length = qs.length) (hlex : List.Lex (· < ·) ps qs) : g.Ahead i es fs := by
  induction h generalizing qs fs with
  | nil =>
    cases hlex
    cases hlength
  | cons hedge _ ih =>
    cases h' with
    | nil => cases hlex
    | cons hedge' hrest' =>
      cases hlex with
      | cons hlex =>
        cases Option.some.inj (hedge.symm.trans hedge')
        exact .later (ih hrest' (Nat.succ.inj hlength) hlex)
      | rel hlt => exact .here hlt hedge hedge'

/-- Of two edges that a node lists one after the other, what holds of all such
pairs holds. -/
theorem rel_of_listed {R : Edge g.size → Edge g.size → Prop} (h : (g.leaving i).Pairwise R)
    {p q : Nat} (hlt : p < q) {e f : Edge g.size} (he : (g.leaving i)[p]? = some e)
    (hf : (g.leaving i)[q]? = some f) : R e f := by
  obtain ⟨hp, rfl⟩ := List.getElem?_eq_some_iff.mp he
  obtain ⟨hq, rfl⟩ := List.getElem?_eq_some_iff.mp hf
  exact List.pairwise_iff_getElem.mp h p q hp hq hlt

/-- Where no node lists two edges to one target, being ahead is a matter of the
nodes alone. -/
theorem Ahead.lex_targets (horder : ∀ i, (g.leaving i).Pairwise Edge.InOrder)
    (hsingle : ∀ i, ((g.leaving i).map (·.target)).Nodup) (h : g.Ahead i es fs) :
    List.Lex (· < ·) (es.map (·.target)) (fs.map (·.target)) := by
  induction h with
  | @here i _ _ e f _ _ hlt he hf =>
    have hother : e.target ≠ f.target :=
      rel_of_listed (List.pairwise_map.mp (hsingle i)) hlt he hf
    rcases rel_of_listed (horder i) hlt he hf with hless | ⟨hsame, _⟩
    · exact .rel hless
    · exact absurd hsame hother
  | later _ ih => exact .cons ih

/-- A walk between distinct nodes has a first edge. -/
theorem Walk.exists_cons (h : g.Walk i es j) (hne : i ≠ j) :
    ∃ e rest, es = e :: rest ∧ e ∈ g.leaving i ∧ g.Walk e.target rest j := by
  cases h with
  | nil => exact absurd rfl hne
  | cons hedge hrest => exact ⟨_, _, rfl, hedge, hrest⟩

/-- In a built graph no two stops of a walk without repeated nodes are in one zone. -/
theorem Walk.nodup_zones {s : ResolvedSnapshot} {inference : Inference}
    (hbuild : build s inference = .ok g) (h : g.Walk i es j) (hne : i ≠ j)
    (hnodup : (g.stops i es).Nodup) : ((g.stops i es).map g.zone).Nodup := by
  obtain ⟨_, _, _, hedge, _⟩ := h.exists_cons hne
  exact nodup_map_zone hnodup (h.foremost hbuild (foremost_of_build hbuild hedge).1)

/-- A walk lets one of the offered pairs through, comes to no zone twice, and is
the first that does so: others have as many edges at least, and those with as
many come after it edge by edge as the nodes list their edges. Where no node
lists two edges to one target, its nodes come first lexicographically. -/
structure Canonical (g : Graph) (ends : Ends) (offered : ServiceSet)
    (source destination : Fin g.size) (es : List (Edge g.size)) : Prop where
  through : g.LetsThrough ends offered source destination es
  zones : ((g.stops source es).map g.zone).Nodup
  shortest : ∀ fs, g.LetsThrough ends offered source destination fs → es.length ≤ fs.length
  first : ∀ fs, g.LetsThrough ends offered source destination fs → es.length = fs.length →
    es = fs ∨ g.Ahead source es fs
  least : (∀ i, ((g.leaving i).map (·.target)).Nodup) →
    ∀ fs, g.LetsThrough ends offered source destination fs → es.length = fs.length →
      es = fs ∨ List.Lex (· < ·) (es.map (·.target)) (fs.map (·.target))

theorem Earliest.canonical {s : ResolvedSnapshot} {inference : Inference}
    (hbuild : build s inference = .ok g) {ends : Ends} {offered : ServiceSet}
    {source destination : Fin g.size} (hne : source ≠ destination)
    (h : g.Earliest ends offered source destination ps es) (hnodup : (g.stops source es).Nodup) :
    g.Canonical ends offered source destination es := by
  have hfirst : ∀ fs, g.LetsThrough ends offered source destination fs →
      es.length = fs.length → es = fs ∨ g.Ahead source es fs := by
    intro fs hthrough hlength
    obtain ⟨qs, hdelivers⟩ := letsThrough_iff.mp hthrough
    rw [← h.itinerary.length_eq, ← hdelivers.itinerary.length_eq] at hlength
    by_cases hbefore : Earlier ps qs
    · have hlex := (List.shortlex_iff_lex hlength).mp hbefore
      exact Or.inr (h.itinerary.ahead hdelivers.itinerary hlength hlex)
    · obtain rfl := Earlier.eq_of_not hbefore (h.least qs fs hdelivers)
      exact Or.inl (h.itinerary.unique hdelivers.itinerary).1
  refine ⟨letsThrough_iff.mpr ⟨ps, h.toDelivers⟩, h.itinerary.walk.nodup_zones hbuild hne hnodup, ?_,
    hfirst, ?_⟩
  · intro fs hthrough
    obtain ⟨qs, hdelivers⟩ := letsThrough_iff.mp hthrough
    rw [← h.itinerary.length_eq, ← hdelivers.itinerary.length_eq]
    exact Nat.le_of_not_lt fun hless => h.least qs fs hdelivers (.of_length_lt hless)
  · intro hsingle fs hthrough hlength
    exact (hfirst fs hthrough hlength).imp_right fun hahead =>
      hahead.lex_targets (inOrder_of_build hbuild) hsingle

/-- The path that a search in a built graph reports is made of the hops of the
canonical walk for the services that a question offers. Each node lists its
edges by target, those of rule sets before links to the same target. -/
theorem search_canonical {s : ResolvedSnapshot} {inference : Inference}
    (hbuild : build s inference = .ok g) {source destination : Fin g.size}
    (hne : source ≠ destination) {ends : Ends} {protocol : Protocol} {port? : Option UInt16}
    {path : List PathHop} {permitted : ServiceSet}
    (h : g.search source destination ends (.ofFlow protocol port?) = .reached path permitted) :
    (∀ i, (g.leaving i).Pairwise Edge.InOrder) ∧
      ∃ es, path = g.hops ends source (.ofFlow protocol port?) es ∧
        g.Canonical ends (.ofFlow protocol port?) source destination es := by
  obtain ⟨ps, es, hearliest, hpath, _, hnodup⟩ :=
    search_earliest (ServiceSet.specific_ofFlow protocol port?) hne h
  exact ⟨inOrder_of_build hbuild, es, hpath, hearliest.canonical hbuild hne hnodup⟩

/-- A rule set that permits what is in one book, if it names one. -/
private def detourRuleSet (fromZone toZone : String) (book : Option String) : RuleSet where
  name := none
  fromZone := fromZone
  toZone := toZone
  defaultAction := .deny
  rules := [⟨3, .permit, none, none, none, none, book, none, true, none⟩]

/-- A device with two ways out of its second zone, one for each of two ports. The
first zone leads there through a rule set for one port, and over a link. -/
private def detourDevice : Device where
  id := "fw"
  interfaces := []
  zones := [⟨"in", [], none⟩, ⟨"hub", [], none⟩, ⟨"left", [], none⟩, ⟨"right", [], none⟩,
    ⟨"out", [], none⟩]
  ruleSets := [detourRuleSet "in" "hub" (some "http"), detourRuleSet "hub" "left" (some "https"),
    detourRuleSet "hub" "right" (some "http"), detourRuleSet "left" "out" none,
    detourRuleSet "right" "out" none]
  routes := []
  adjacencies := [⟨"in", "fw", "hub", false⟩]

def detour : Snapshot where
  toolRunId := none
  devices := [detourDevice]
  networkBooks := []
  serviceBooks := [⟨"http", .global, [.literal ⟨some .tcp, ⟨80, 80⟩⟩], []⟩,
    ⟨"https", .global, [.literal ⟨some .tcp, ⟨443, 443⟩⟩], []⟩]

private def detourHttp : ServiceSet := .ofFlow .tcp (some 80)

private def detourHttps : ServiceSet := .ofFlow .tcp (some 443)

private def detourTables : BookTables where
  networks := .empty
  services := ⟨[(⟨.global, "https"⟩, detourHttps), (⟨.global, "http"⟩, detourHttp)]⟩

private def detourRules (fromZone toZone : String) (services : ServiceSet) : ResolvedRuleSet where
  id := ⟨"fw", fromZone, toZone, none⟩
  defaultAction := .deny
  rules := [⟨3, .permit, .any, .any, services, none⟩]

private def inToHub : ResolvedRuleSet := detourRules "in" "hub" detourHttp

private def hubToLeft : ResolvedRuleSet := detourRules "hub" "left" detourHttps

private def hubToRight : ResolvedRuleSet := detourRules "hub" "right" detourHttp

private def leftToOut : ResolvedRuleSet := detourRules "left" "out" .any

private def rightToOut : ResolvedRuleSet := detourRules "right" "out" .any

private def detourGate : ResolvedDevice :=
  ⟨"fw", [inToHub, hubToLeft, hubToRight, leftToOut, rightToOut], []⟩

private def detourResolved : ResolvedSnapshot :=
  ⟨detour, detour.digest, detourTables, [detourGate]⟩

private def detourCatalog : Catalog := ⟨.empty, .ofDistinct detour.serviceBooks (by decide)⟩

private theorem detour_resolve : detour.resolve false = .ok detourResolved := by
  have hglobals : detourCatalog.resolveGlobals = .ok detourTables := by with_unfolding_all rfl
  have hdevices : detour.devices.mapM (detourCatalog.resolveDevice detourTables) =
      .ok [(detourGate, .empty)] := by with_unfolding_all rfl
  exact Snapshot.resolve_eq_ok_iff.mpr ⟨by decide, _, detourTables, _, rfl, hglobals, hdevices, rfl⟩

private def detourNodes : List Node := detourGate.nodes detourDevice

private def detourArc (i j : Fin 5) (kind : EdgeKind) : Arc detourNodes.length := ⟨i, ⟨j, kind⟩⟩

private def detourGraph : Graph :=
  .ofArcs detourNodes [detourArc 0 1 (.filtered inToHub), detourArc 1 2 (.filtered hubToLeft),
    detourArc 1 3 (.filtered hubToRight), detourArc 2 4 (.filtered leftToOut),
    detourArc 3 4 (.filtered rightToOut), detourArc 0 1 (.transit .declared)]

private def detourZone (i : Fin 5) : Fin detourGraph.size := i

private def toHub : Edge detourGraph.size := ⟨detourZone 1, .filtered inToHub⟩

private def linkToHub : Edge detourGraph.size := ⟨detourZone 1, .transit .declared⟩

private def toLeft : Edge detourGraph.size := ⟨detourZone 2, .filtered hubToLeft⟩

private def toRight : Edge detourGraph.size := ⟨detourZone 3, .filtered hubToRight⟩

private def leftOut : Edge detourGraph.size := ⟨detourZone 4, .filtered leftToOut⟩

private def rightOut : Edge detourGraph.size := ⟨detourZone 4, .filtered rightToOut⟩

private def detourEnds : Ends := ⟨⟨.v4, 10, by decide⟩, ⟨.v4, 20, by decide⟩⟩

private theorem detour_build : build detourResolved .explicitOnly = .ok detourGraph := rfl

private theorem leaving_zero : detourGraph.leaving (detourZone 0) = [toHub, linkToHub] :=
  leaving_ofArcs_of_ascending (by decide)

private theorem leaving_one : detourGraph.leaving (detourZone 1) = [toLeft, toRight] :=
  leaving_ofArcs_of_ascending (by decide)

private theorem leaving_two : detourGraph.leaving (detourZone 2) = [leftOut] :=
  leaving_ofArcs_of_ascending (by decide)

private theorem leaving_three : detourGraph.leaving (detourZone 3) = [rightOut] :=
  leaving_ofArcs_of_ascending (by decide)

/-- The walks to the last zone lead over the second and one of the two after it. -/
private theorem detour_walks {es : List (Edge detourGraph.size)}
    (h : detourGraph.Walk (detourZone 0) es (detourZone 4)) :
    ∃ first second third rest, es = first :: second :: third :: rest ∧
      (first = toHub ∨ first = linkToHub) ∧
      ((second = toLeft ∧ third = leftOut) ∨ (second = toRight ∧ third = rightOut)) := by
  obtain ⟨first, es, rfl, hfirst, h⟩ := h.exists_cons (by decide)
  have hfirst : first = toHub ∨ first = linkToHub := by
    simpa [leaving_zero] using hfirst
  have hhub : first.target = detourZone 1 := by
    rcases hfirst with rfl | rfl <;> rfl
  rw [hhub] at h
  obtain ⟨second, es, rfl, hsecond, h⟩ := h.exists_cons (by decide)
  have hsecond : second = toLeft ∨ second = toRight := by
    simpa [leaving_one] using hsecond
  rcases hsecond with rfl | rfl
  · obtain ⟨third, rest, rfl, hthird, _⟩ := h.exists_cons (by decide)
    have hthird : third ∈ detourGraph.leaving (detourZone 2) := hthird
    rw [leaving_two, List.mem_singleton] at hthird
    exact ⟨first, toLeft, third, rest, rfl, hfirst, Or.inl ⟨rfl, hthird⟩⟩
  · obtain ⟨third, rest, rfl, hthird, _⟩ := h.exists_cons (by decide)
    have hthird : third ∈ detourGraph.leaving (detourZone 3) := hthird
    rw [leaving_three, List.mem_singleton] at hthird
    exact ⟨first, toRight, third, rest, rfl, hfirst, Or.inr ⟨rfl, hthird⟩⟩

private theorem admits_detourRules {fromZone toZone : String} {n : UInt16} {p : Protocol}
    {port : UInt16}
    (h : (EdgeKind.filtered (detourRules fromZone toZone (.ofFlow .tcp (some n)))).Admits
      (detourEnds.flow p port)) : port = n := by
  have hcovered : (ServiceSet.ofFlow .tcp (some n)).contains p port = true := by
    by_contra hnot
    simp [EdgeKind.Admits, ResolvedRuleSet.evaluate, detourRules, ResolvedRule.covers, Ends.flow,
      hnot] at h
  have hlast : n.toNat ≤ lastPort := Nat.le_of_lt_succ n.toNat_lt
  have hport := (ServiceSet.contains_ofProtocol.mp hcovered).2
  simpa [hlast, UInt16.toNat_inj] using hport

private theorem detour_right :
    detourGraph.LetsThrough detourEnds (.ofFlow .tcp none) (detourZone 0) (detourZone 4)
      [toHub, toRight, rightOut] := by
  refine ⟨.cons ?_ (.cons ?_ (.cons ?_ (.nil _))), .tcp, 80, by decide, ?_⟩
  · rw [leaving_zero]
    exact .head _
  · exact leaving_one ▸ .tail _ (.head _)
  · exact leaving_three ▸ .head _
  · intro e he
    simp only [List.mem_cons, List.not_mem_nil, or_false] at he
    rcases he with rfl | rfl | rfl <;> decide

private theorem detour_left :
    detourGraph.LetsThrough detourEnds (.ofFlow .tcp none) (detourZone 0) (detourZone 4)
      [linkToHub, toLeft, leftOut] := by
  refine ⟨.cons ?_ (.cons ?_ (.cons ?_ (.nil _))), .tcp, 443, by decide, ?_⟩
  · exact leaving_zero ▸ .tail _ (.head _)
  · exact leaving_one ▸ .head _
  · exact leaving_two ▸ .head _
  · intro e he
    simp only [List.mem_cons, List.not_mem_nil, or_false] at he
    rcases he with rfl | rfl | rfl <;> decide

/-- The canonical walk goes to the right: on the left, it could only come first
over the rule set, which lets nothing on. -/
private theorem detour_canonical_right {es : List (Edge detourGraph.size)}
    (h : detourGraph.Canonical detourEnds (.ofFlow .tcp none) (detourZone 0) (detourZone 4) es) :
    es.map (·.target) = [detourZone 1, detourZone 3, detourZone 4] := by
  obtain ⟨first, second, third, rest, rfl, hfirst, hrest⟩ := detour_walks h.through.1
  have hlength := h.shortest _ detour_right
  obtain rfl : rest = [] := by
    simp only [List.length_cons, List.length_nil] at hlength
    exact List.eq_nil_of_length_eq_zero (by omega)
  rcases hrest with ⟨rfl, rfl⟩ | ⟨rfl, rfl⟩
  · obtain ⟨_, p, port, _, hadmits⟩ := h.through
    have hleft : port = 443 := admits_detourRules (hadmits toLeft (by simp))
    rcases hfirst with rfl | rfl
    · have hhub : port = 80 := admits_detourRules (hadmits toHub (by simp))
      rw [hhub] at hleft
      cases hleft
    · rcases h.first _ detour_right rfl with hsame | hahead
      · cases hsame
      · cases hahead with
        | here hlt he hf =>
          rcases rel_of_listed (inOrder_of_build detour_build (detourZone 0)) hlt he hf with
            hless | ⟨_, hfiltered⟩
          · exact absurd hless (lt_irrefl _)
          · cases hfiltered rfl
  · rcases hfirst with rfl | rfl <;> rfl

theorem detour_search_canonical :
    build detourResolved .explicitOnly = .ok detourGraph ∧ detourZone 0 ≠ detourZone 4 ∧
      ∃ path permitted,
        detourGraph.search (detourZone 0) (detourZone 4) detourEnds (.ofFlow .tcp none) =
          .reached path permitted ∧
        (∀ i, (detourGraph.leaving i).Pairwise Edge.InOrder) ∧
        ∃ es, path = detourGraph.hops detourEnds (detourZone 0) (.ofFlow .tcp none) es ∧
          detourGraph.Canonical detourEnds (.ofFlow .tcp none) (detourZone 0) (detourZone 4) es := by
  have hne : detourZone 0 ≠ detourZone 4 := by decide
  obtain ⟨path, permitted, hreached⟩ := detour_right.exists_reached hne
  exact ⟨detour_build, hne, path, permitted, hreached, search_canonical detour_build hne hreached⟩

/-- Two edges to one target make a difference: the walk on the left has lower
nodes and lets a port through, but its first edge is listed after the one that
the reported path takes. -/
theorem detour_reported_not_least :
    detour.resolve false = .ok detourResolved ∧
      build detourResolved .explicitOnly = .ok detourGraph ∧ detourZone 0 ≠ detourZone 4 ∧
      ∃ path permitted es fs,
        detourGraph.search (detourZone 0) (detourZone 4) detourEnds (.ofFlow .tcp none) =
          .reached path permitted ∧
        path = detourGraph.hops detourEnds (detourZone 0) (.ofFlow .tcp none) es ∧
        detourGraph.Walk (detourZone 0) es (detourZone 4) ∧
        detourGraph.LetsThrough detourEnds (.ofFlow .tcp none) (detourZone 0) (detourZone 4) fs ∧
        fs.length = es.length ∧ List.Lex (· < ·) (fs.map (·.target)) (es.map (·.target)) := by
  have hne : detourZone 0 ≠ detourZone 4 := by decide
  obtain ⟨path, permitted, hreached⟩ := detour_right.exists_reached hne
  obtain ⟨ps, es, hearliest, hpath, _, hnodup⟩ :=
    search_earliest (ServiceSet.specific_ofFlow .tcp none) hne hreached
  have htargets := detour_canonical_right (hearliest.canonical detour_build hne hnodup)
  have hlength := congrArg List.length htargets
  rw [List.length_map] at hlength
  refine ⟨detour_resolve, detour_build, hne, path, permitted, es, _, hreached, hpath,
    hearliest.itinerary.walk, detour_left, hlength.symm, ?_⟩
  rw [htargets]
  exact .cons (.rel (by decide))

end Graph

end Perimeter
