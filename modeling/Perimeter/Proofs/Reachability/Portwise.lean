import Perimeter.Proofs.Book.Catalog
import Perimeter.Proofs.Reachability.Answer

/-!
Questions about every port, and about each port by itself. The ends of a
question do not depend on its port, and an offer of every port gets through a
walk when one of them does. So a question about every port fails, is allowed
and finds no path just as the questions about single ports do.
-/

namespace Perimeter

namespace FlowQuery

/-- The same question about one port. -/
def atPort (q : FlowQuery) (port : UInt16) : FlowQuery := { q with port := some port }

variable {q : FlowQuery} {p : Protocol} {n port : UInt16}

theorem contains_offered_of_none (hport : q.port = none) :
    q.offered.contains p port = true ↔ p = q.protocol := by
  have hlast : port.toNat ≤ lastPort := Nat.le_of_lt_succ port.toNat_lt
  simp [offered, ServiceSet.ofFlow, hport, hlast]

theorem contains_offered_atPort :
    (q.atPort n).offered.contains p port = true ↔ p = q.protocol ∧ port = n :=
  ServiceSet.contains_ofFlow_port

end FlowQuery

namespace Graph

variable {g : Graph} {q : FlowQuery} {source destination : Fin g.size} {es : List (Edge g.size)}

theorem letsThrough_atPort_iff {n : UInt16} :
    g.LetsThrough q.ends (q.atPort n).offered source destination es ↔
      g.Walk source es destination ∧ ∀ e ∈ es, e.kind.Admits (q.ends.flow q.protocol n) := by
  simp [LetsThrough, FlowQuery.contains_offered_atPort]

/-- An offer of every port gets through a walk when the offer of some port does. -/
theorem letsThrough_iff_exists_port (hport : q.port = none) :
    g.LetsThrough q.ends q.offered source destination es ↔
      ∃ n, g.LetsThrough q.ends (q.atPort n).offered source destination es := by
  simp only [letsThrough_atPort_iff]
  simp [LetsThrough, FlowQuery.contains_offered_of_none hport]

/-- A question about every port is allowed when the one about some port is. -/
theorem answer_allowed_iff_exists_port (hport : q.port = none) (digest : String) :
    (g.answer source destination q digest).allowed = true ↔
      ∃ n, (g.answer source destination (q.atPort n) digest).allowed = true := by
  simp only [answer_allowed_iff, letsThrough_iff_exists_port hport]
  constructor
  · rintro (hsame | ⟨es, n, hthrough⟩)
    · exact ⟨0, Or.inl hsame⟩
    · exact ⟨n, Or.inr ⟨es, hthrough⟩⟩
  · rintro ⟨n, hsame | ⟨es, hthrough⟩⟩
    · exact Or.inl hsame
    · exact Or.inr ⟨es, n, hthrough⟩

/-- A port that is permitted is allowed by itself. -/
theorem allowed_atPort_of_permitted (hport : q.port = none) {digest : String} {p : Protocol}
    {n : UInt16}
    (h : (g.answer source destination q digest).permitted.contains p n = true) :
    p = q.protocol ∧ (g.answer source destination (q.atPort n) digest).allowed = true := by
  obtain ⟨hin, hway⟩ := walk_of_permitted h
  obtain rfl := (FlowQuery.contains_offered_of_none hport).mp hin
  refine ⟨rfl, answer_allowed_iff.mpr (hway.imp_right ?_)⟩
  rintro ⟨es, hthrough⟩
  exact ⟨es, letsThrough_atPort_iff.mpr hthrough⟩

end Graph

namespace Engine

/-- What a question about every port has to do with those about single ports. -/
structure Portwise (e : Engine) (q : FlowQuery) : Prop where
  error : ∀ error, e.query q = .error error ↔ ∀ n, e.query (q.atPort n) = .error error
  allowed : (∃ v, e.query q = .ok v ∧ v.allowed = true) ↔
    ∃ n v, e.query (q.atPort n) = .ok v ∧ v.allowed = true
  permitted : ∀ v p n, e.query q = .ok v → v.permitted.contains p n = true →
    p = q.protocol ∧ ∃ v', e.query (q.atPort n) = .ok v' ∧ v'.allowed = true
  noPath : (∃ v, e.query q = .ok v ∧ v.reason = .noPath) ↔
    ∀ n, ∃ v, e.query (q.atPort n) = .ok v ∧ v.reason = .noPath

/-- A question about every port goes with those about the single ports: it fails
as all of them do, it is allowed when one of them is, what it permits is allowed
for the port by itself, and it finds no path when none of them does. -/
theorem query_portwise (e : Engine) {q : FlowQuery} (hport : q.port = none) : e.Portwise q := by
  refine ⟨fun error => ?_, ?_, ?_, ?_⟩ <;> unfold query
  · simp only [Graph.query_eq_error_iff]
    exact ⟨fun h _ => h, fun h => h 0⟩
  · simp only [Graph.exists_answer_iff]
    constructor
    · rintro ⟨source, destination, hsource, hdestination, hallowed⟩
      obtain ⟨n, hallowed⟩ := (Graph.answer_allowed_iff_exists_port hport e.digest).mp hallowed
      exact ⟨n, source, destination, hsource, hdestination, hallowed⟩
    · rintro ⟨n, source, destination, hsource, hdestination, hallowed⟩
      exact ⟨source, destination, hsource, hdestination,
        (Graph.answer_allowed_iff_exists_port hport e.digest).mpr ⟨n, hallowed⟩⟩
  · rintro v p n h hin
    obtain ⟨source, destination, hsource, hdestination, rfl⟩ := Graph.query_eq_ok_iff.mp h
    obtain ⟨hprotocol, hallowed⟩ := Graph.allowed_atPort_of_permitted hport hin
    exact ⟨hprotocol, Graph.exists_answer_iff.mpr
      ⟨source, destination, hsource, hdestination, hallowed⟩⟩
  · simp only [Graph.exists_answer_iff, Graph.answer_noPath_iff]
    exact ⟨fun h _ => h, fun h => h 0⟩

/-- A rule set that permits what is in one book, if it names one. -/
private def forkRuleSet (fromZone toZone : String) (book : Option String) : RuleSet where
  name := none
  fromZone := fromZone
  toZone := toZone
  defaultAction := .deny
  rules := [⟨5, .permit, none, none, none, none, book, none, true, none⟩]

/-- A device that lets web traffic out directly, and secure web traffic only by
way of a zone between. -/
private def forkDevice : Device where
  id := "fw"
  interfaces := []
  zones := [⟨"in", [], none⟩, ⟨"mid", [], none⟩, ⟨"out", [], none⟩]
  ruleSets := [forkRuleSet "in" "out" (some "http"), forkRuleSet "in" "mid" none,
    forkRuleSet "mid" "out" (some "https")]
  routes := []
  adjacencies := []

def fork : Snapshot where
  toolRunId := none
  devices := [forkDevice]
  networkBooks := []
  serviceBooks := [⟨"http", .global, [.literal ⟨some .tcp, ⟨80, 80⟩⟩], []⟩,
    ⟨"https", .global, [.literal ⟨some .tcp, ⟨443, 443⟩⟩], []⟩]

private def forkCatalog : Catalog := ⟨.empty, .ofDistinct fork.serviceBooks (by decide)⟩

private def forkTables : BookTables where
  networks := .empty
  services := ⟨[(⟨.global, "https"⟩, .ofFlow .tcp (some 443)),
    (⟨.global, "http"⟩, .ofFlow .tcp (some 80))]⟩

def forkRules (fromZone toZone : String) (services : ServiceSet) : ResolvedRuleSet where
  id := ⟨"fw", fromZone, toZone, none⟩
  defaultAction := .deny
  rules := [⟨5, .permit, .any, .any, services, none⟩]

private def forkGate : ResolvedDevice where
  id := "fw"
  ruleSets := [forkRules "in" "out" (.ofFlow .tcp (some 80)), forkRules "in" "mid" .any,
    forkRules "mid" "out" (.ofFlow .tcp (some 443))]
  zoneBooks := []

private def forkResolved : ResolvedSnapshot := ⟨fork, fork.digest, forkTables, [forkGate]⟩

def forkGraph : Graph :=
  .ofArcs (forkGate.nodes forkDevice)
    [⟨⟨0, by decide⟩, ⟨⟨2, by decide⟩, .filtered (forkRules "in" "out" (.ofFlow .tcp (some 80)))⟩⟩,
      ⟨⟨0, by decide⟩, ⟨⟨1, by decide⟩, .filtered (forkRules "in" "mid" .any)⟩⟩,
      ⟨⟨1, by decide⟩,
        ⟨⟨2, by decide⟩, .filtered (forkRules "mid" "out" (.ofFlow .tcp (some 443)))⟩⟩]

def forkConfig : EngineConfig := ⟨.explicitOnly, true, false⟩

def forkEngine : Engine := ⟨forkResolved, forkGraph⟩

theorem fork_load : load fork forkConfig = .ok forkEngine := by
  have hglobals : forkCatalog.resolveGlobals = .ok forkTables := by with_unfolding_all rfl
  have hdevices : fork.devices.mapM (forkCatalog.resolveDevice forkTables) =
      .ok [(forkGate, .empty)] := by with_unfolding_all rfl
  have hresolve : fork.resolve false = .ok forkResolved :=
    Snapshot.resolve_eq_ok_iff.mpr ⟨by decide, forkCatalog, forkTables, _, rfl, hglobals, hdevices,
      rfl⟩
  exact load_eq_ok_iff.mpr ⟨hresolve, rfl⟩

def forkQuery : FlowQuery where
  source := ⟨.v4, 168362241, by decide⟩
  destination := ⟨.v4, 168427777, by decide⟩
  protocol := .tcp
  port := none
  sourceZone := some ⟨"fw", "in"⟩
  destinationZone := some ⟨"fw", "out"⟩

theorem fork_portwise :
    load fork forkConfig = .ok forkEngine ∧ forkQuery.port = none ∧ forkEngine.Portwise forkQuery :=
  ⟨fork_load, rfl, query_portwise forkEngine rfl⟩

end Engine

end Perimeter
