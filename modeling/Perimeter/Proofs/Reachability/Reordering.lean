import Perimeter.Proofs.Book.Catalog
import Perimeter.Proofs.Reachability.Answer
import Perimeter.Proofs.Topology.Reordering

/-!
Engines of snapshots in another order. Books, graph and answers do not depend on
the order in which a snapshot lists what has none of its own; only the digest,
which is one of the document, tells the two apart.
-/

namespace Perimeter

namespace Graph

/-- The digest of a snapshot marks an answer and has no other effect on it. -/
theorem query_digest (g : Graph) (q : FlowQuery) (digest digest' : String) :
    g.query q digest' = (g.query q digest).map fun v => { v with digest := digest' } := by
  have hanswer : ∀ source destination, g.answer source destination q digest' =
      { g.answer source destination q digest with digest := digest' } := by
    intro source destination
    unfold answer
    split
    · rfl
    · split <;> rfl
  rw [query_eq_answer, query_eq_answer]
  cases g.locate q.source q.sourceZone with
  | error e => rfl
  | ok source =>
    cases g.locate q.destination q.destinationZone with
    | error e => rfl
    | ok destination => exact congrArg Except.ok (hanswer source destination)

end Graph

namespace Engine

/-- Two engines have the same sets under the same keys and the same graph, and
answer every question alike. Each marks its verdicts with its own digest. -/
structure Agrees (e e' : Engine) : Prop where
  books : e.resolved.books.Same e'.resolved.books
  graph : e.graph = e'.graph
  query : ∀ q, e'.query q = (e.query q).map fun v => { v with digest := e'.digest }

/-- The order in which a snapshot lists its books, their items, rule sets and
adjacencies has no effect. From a snapshot that is loaded, another one with those
in another order is loaded under the same configuration; its tables have the same
set for each book of the catalog, its graph is the same, and so are its answers. -/
theorem load_reordered {s s' : Snapshot} {config : EngineConfig} {e : Engine}
    (h : s.Reordered s') (hload : load s config = .ok e) :
    ∃ e' c, load s' config = .ok e' ∧
      Catalog.ofBooks s.networkBooks s.serviceBooks config.builtinBooks = .ok c ∧
      e.resolved.books.Lists c ∧ e.Agrees e' := by
  obtain ⟨e', hload'⟩ := h.exists_load hload
  obtain ⟨hresolve, hbuild⟩ := load_eq_ok_iff.mp hload
  obtain ⟨hresolve', hbuild'⟩ := load_eq_ok_iff.mp hload'
  obtain ⟨hsnapshot, c, hcatalog, _, _, hlists⟩ := Snapshot.renders_of_resolve hresolve
  obtain ⟨hsnapshot', _⟩ := Snapshot.renders_of_resolve hresolve'
  obtain ⟨hdevices, hbooks⟩ := h.of_resolve hresolve hresolve'
  have hreordered : e.resolved.Reordered e'.resolved := by
    refine ⟨?_, hdevices⟩
    rw [hsnapshot, hsnapshot']
    exact h.devices
  have hvalid := (Snapshot.booksValid_of_resolve hresolve).1
  have hgraph : e.graph = e'.graph := hreordered.graph_eq hbuild hbuild'
    (Snapshot.nodup_directions hresolve hvalid)
    (Snapshot.nodup_directions hresolve' (h.valid hvalid))
  refine ⟨e', c, hload', hcatalog, hlists, hbooks, hgraph, ?_⟩
  intro q
  unfold query
  rw [← hgraph]
  exact e.graph.query_digest q e.digest e'.digest

private def crossroadsRuleSet (fromZone toZone book : String) : RuleSet where
  name := none
  fromZone := fromZone
  toZone := toZone
  defaultAction := .deny
  rules := [⟨10, .permit, none, none, none, some book, some "web", none, true, none⟩]

private def crossroadsDevice (ruleSets : List RuleSet) (adjacencies : List Adjacency) : Device where
  id := "fw"
  interfaces := []
  zones := [⟨"in", [], some "hosts"⟩, ⟨"dmz", [], none⟩, ⟨"out", [], none⟩]
  ruleSets := ruleSets
  routes := []
  adjacencies := adjacencies

private theorem byte_le_top (value : Fin 256) : value.val ≤ Family.v4.top :=
  le_trans (Nat.le_of_lt value.isLt) (by decide)

private def crossroadsHost (value : Fin 256) : Entry Network :=
  .literal ⟨⟨.v4, value, byte_le_top value⟩, 32, le_refl _⟩

/-- A firewall with rule sets in two directions, which names books of its own and
global ones, and is linked to a router twice over. -/
def crossroads : Snapshot where
  toolRunId := none
  devices := [crossroadsDevice
      [crossroadsRuleSet "in" "out" "servers", crossroadsRuleSet "in" "dmz" "hosts"]
      [⟨"dmz", "edge", "core", true⟩, ⟨"out", "edge", "core", false⟩],
    ⟨"edge", [], [⟨"core", [], none⟩], [], [], []⟩]
  networkBooks := [⟨"servers", .global, [crossroadsHost 1, crossroadsHost 2],
      [crossroadsHost 2, crossroadsHost 3]⟩,
    ⟨"hosts", .device "fw", [.book "servers", crossroadsHost 129], []⟩]
  serviceBooks := [⟨"web", .global,
    [.literal ⟨some .tcp, ⟨80, 80⟩⟩, .literal ⟨some .tcp, ⟨443, 443⟩⟩], []⟩]

/-- The same firewall, with everything listed the other way round. -/
def crossroadsReversed : Snapshot where
  toolRunId := none
  devices := [crossroadsDevice
      [crossroadsRuleSet "in" "dmz" "hosts", crossroadsRuleSet "in" "out" "servers"]
      [⟨"out", "edge", "core", false⟩, ⟨"dmz", "edge", "core", true⟩],
    ⟨"edge", [], [⟨"core", [], none⟩], [], [], []⟩]
  networkBooks := [⟨"hosts", .device "fw", [crossroadsHost 129, .book "servers"], []⟩,
    ⟨"servers", .global, [crossroadsHost 2, crossroadsHost 1],
      [crossroadsHost 3, crossroadsHost 2]⟩]
  serviceBooks := [⟨"web", .global,
    [.literal ⟨some .tcp, ⟨443, 443⟩⟩, .literal ⟨some .tcp, ⟨80, 80⟩⟩], []⟩]

private theorem crossroads_reordered : crossroads.Reordered crossroadsReversed := by
  refine ⟨rfl, .cons ⟨rfl, rfl, rfl, rfl, .swap .., .swap ..⟩
    (.cons ⟨rfl, rfl, rfl, rfl, .refl _, .refl _⟩ .nil), ?_, ?_⟩
  · exact ⟨_, .swap .., .cons ⟨rfl, .swap .., .refl _⟩ (.cons ⟨rfl, .swap .., .swap ..⟩ .nil)⟩
  · exact ⟨_, .refl _, .cons ⟨rfl, .swap .., .refl _⟩ .nil⟩

private def crossroadsCatalog : Catalog :=
  ⟨.ofDistinct crossroads.networkBooks (by decide), .ofDistinct crossroads.serviceBooks (by decide)⟩

private def crossroadsConfig : EngineConfig := ⟨.sharedSubnet, true, false⟩

private theorem crossroads_loads : ∃ e, load crossroads crossroadsConfig = .ok e := by
  have hresolves : ∃ resolved, crossroads.resolve false = .ok resolved :=
    Snapshot.exists_resolve (c := crossroadsCatalog) (by decide) rfl (by decide +kernel)
  obtain ⟨resolved, hresolved⟩ := hresolves
  obtain ⟨hvalid, hbooks⟩ := Snapshot.booksValid_of_resolve hresolved
  have hgraph : crossroads.GraphValid := by
    refine ⟨by decide, ?_⟩
    unfold Snapshot.Declares
    decide
  exact Snapshot.WellFormed.exists_load ⟨hvalid, hbooks, hgraph⟩

theorem crossroads_load_reordered :
    crossroads.Reordered crossroadsReversed ∧ ∃ e, load crossroads crossroadsConfig = .ok e ∧
      ∃ e' c, load crossroadsReversed crossroadsConfig = .ok e' ∧
        Catalog.ofBooks crossroads.networkBooks crossroads.serviceBooks
          crossroadsConfig.builtinBooks = .ok c ∧
        e.resolved.books.Lists c ∧ e.Agrees e' := by
  obtain ⟨e, hload⟩ := crossroads_loads
  exact ⟨crossroads_reordered, e, hload, load_reordered crossroads_reordered hload⟩

end Engine

end Perimeter
