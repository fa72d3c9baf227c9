import Perimeter.Proofs.Reachability.Legs
import Perimeter.Proofs.Snapshot.RuleSets

/-!
Explanations that name what decided. A loaded snapshot has one rule set for the
identity that a hop states, and in it one enabled rule of the index that a
decision states; the rule set gives just this answer to some flow that arrives at
the hop. What a denial is put down to is the first rule that covers any such flow.
-/

namespace Perimeter

/-- A configured rule set has its place to itself, and so has its resolved form. -/
structure ResolvedSnapshot.Governs (r : ResolvedSnapshot) (s : Snapshot) (c : Catalog)
    (id : RuleSetId) (d : Device) (rs : RuleSet) (resolved : ResolvedRuleSet) : Prop where
  configured : s.configured.filter (Snapshot.place · = id.place) = [(d, rs)]
  identity : rs.id d.id = id
  only : r.ruleSets.filter (·.id = id) = [resolved]
  lists : resolved.Lists c d.id rs

/-- The decision of a hop is the answer of its rule set to a flow that arrives. -/
structure PathHop.Explained (hop : PathHop) (q : FlowQuery) (arriving : ServiceSet)
    (rs : RuleSet) (resolved : ResolvedRuleSet) : Prop where
  action : hop.decision.action? = some (if hop.services.isEmpty then .deny else .permit)
  rule : ∀ index action, hop.decision = .rule index action →
    (∃ rule, (rs.rules.filter (·.enabled)).filter (·.index = index) = [rule] ∧
      rule.action = action) ∧
    ∃ port, arriving.contains q.protocol port = true ∧
      resolved.evaluate (q.ends.flow q.protocol port) = (action, some index)
  default : ∀ action, hop.decision = .default action → action = rs.defaultAction ∧
    ∃ port, arriving.contains q.protocol port = true ∧
      resolved.evaluate (q.ends.flow q.protocol port) = (rs.defaultAction, none)
  /-- A question about one port leaves no choice of the flow. -/
  port : ∀ port, q.port = some port →
    hop.decision = .ofAnswer (resolved.evaluate (q.ends.flow q.protocol port))

namespace Verdict

/-- The path ends with a hop at which a rule set lets nothing through. -/
structure DeniedAt (v : Verdict) (r : ResolvedSnapshot) (id : RuleSetId) (arriving : ServiceSet)
    (resolved : ResolvedRuleSet) : Prop where
  last : ∃ hop, v.legs.getLast? = some (arriving, hop) ∧ hop.ruleSet = some id ∧
    hop.services = .empty
  only : r.ruleSets.filter (·.id = id) = [resolved]

/-- The explanation of a verdict names what really decided. -/
structure Explained (v : Verdict) (s : Snapshot) (r : ResolvedSnapshot) (c : Catalog) : Prop where
  hops : ∀ leg ∈ v.legs, ∀ id, leg.2.ruleSet = some id → ∃ d rs resolved,
    r.Governs s c id d rs resolved ∧ leg.2.Explained v.query leg.1 rs resolved
  deniedByDefault : ∀ id, v.reason = .deniedByDefault id → ∃ arriving resolved,
    v.DeniedAt r id arriving resolved ∧
      ∀ rule ∈ resolved.rules, ¬rule.Touches v.query.ends arriving
  deniedByRule : ∀ id index, v.reason = .deniedByRule id index → ∃ arriving resolved,
    v.DeniedAt r id arriving resolved ∧
      (∃ rule ∈ resolved.rules, rule.index = index ∧ rule.Touches v.query.ends arriving) ∧
      ∀ rule ∈ resolved.rules, rule.Touches v.query.ends arriving → index ≤ rule.index

end Verdict

namespace PathHop

variable {hop : PathHop} {id : RuleSetId}

theorem denial?_eq_rule {index : UInt32} (h : hop.denial? = some (.deniedByRule id index)) :
    hop.ruleSet = some id ∧ hop.decision = .rule index .deny := by
  obtain ⟨ruleSet, hruleSet, hreason⟩ := Option.map_eq_some_iff.mp h
  split at hreason
  · rename_i hdecision
    cases hreason
    exact ⟨hruleSet, hdecision⟩
  · cases hreason

/-- A denial by default is no denial by a rule; it may still be none at all. -/
theorem denial?_eq_default (h : hop.denial? = some (.deniedByDefault id)) :
    hop.ruleSet = some id ∧ ∀ index, hop.decision ≠ .rule index .deny := by
  obtain ⟨ruleSet, hruleSet, hreason⟩ := Option.map_eq_some_iff.mp h
  split at hreason
  · cases hreason
  · rename_i hother
    cases hreason
    exact ⟨hruleSet, hother⟩

/-- With the action to deny it is one by default. -/
theorem decision_of_denial?_default (h : hop.denial? = some (.deniedByDefault id))
    (haction : hop.decision.action? = some .deny) : hop.decision = .default .deny := by
  have hother := (denial?_eq_default h).2
  cases hdecision : hop.decision with
  | rule index action =>
    rw [hdecision] at haction
    cases haction
    exact absurd hdecision (hother index)
  | default action =>
    rw [hdecision] at haction
    cases haction
    rfl
  | transit reason =>
    rw [hdecision] at haction
    cases haction

variable {q : FlowQuery} {arriving : ServiceSet} {resolved : ResolvedRuleSet} {c : Catalog}
variable {device : String} {rs : RuleSet}

/-- Of the services that arrive, the decision is the answer for one port. -/
theorem DecidedBy.exists_flow (h : hop.DecidedBy q arriving resolved) :
    ∃ port, arriving.contains q.protocol port = true ∧ (∀ n ∈ q.port, port = n) ∧
      hop.decision = .ofAnswer (resolved.evaluate (q.ends.flow q.protocol port)) ∧
      hop.decision.action? = some (if hop.services.isEmpty then .deny else .permit) := by
  obtain ⟨p, port, hin, hanswer, haction⟩ :=
    resolved.decision_answers q.ends h.carries.specific h.carries.hasPair
  obtain ⟨rfl, hasked⟩ := h.carries.asked p port hin
  refine ⟨port, hin, hasked, h.decision.trans hanswer, ?_⟩
  rw [h.decision, h.services]
  exact haction

theorem DecidedBy.explained (h : hop.DecidedBy q arriving resolved)
    (hlists : resolved.Lists c device rs) (hvalid : rs.Valid) :
    hop.Explained q arriving rs resolved := by
  obtain ⟨port, hin, hasked, hsame, haction⟩ := h.exists_flow
  refine ⟨haction, ?_, ?_, ?_⟩
  · intro index action hrule
    have hanswer := HopDecision.ofAnswer_eq_rule.mp (hsame.symm.trans hrule)
    exact ⟨hlists.rule_of_evaluate hvalid hanswer, port, hin, hanswer⟩
  · intro action hdefault
    have hanswer := HopDecision.ofAnswer_eq_default.mp (hsame.symm.trans hdefault)
    obtain rfl := hlists.default_of_evaluate hanswer
    exact ⟨rfl, port, hin, hanswer⟩
  · intro n hn
    obtain rfl := hasked n hn
    exact hsame

theorem DecidedBy.untouched (h : hop.DecidedBy q arriving resolved) (hempty : hop.services = .empty)
    (hdenial : hop.denial? = some (.deniedByDefault id)) :
    ∀ rule ∈ resolved.rules, ¬rule.Touches q.ends arriving := by
  obtain ⟨_, _, _, _, haction⟩ := h.exists_flow
  rw [hempty] at haction
  have hdefault := decision_of_denial?_default hdenial haction
  have hnothing := h.services.symm.trans hempty
  exact ResolvedRuleSet.untouched_of_denying_default q.ends h.carries.specific
    h.carries.hasPair (congrArg ServiceSet.isEmpty hnothing) (h.decision.symm.trans hdefault)

theorem DecidedBy.lowest (h : hop.DecidedBy q arriving resolved)
    (hascending : (resolved.rules.map (·.index)).Pairwise (· < ·))
    (hempty : hop.services = .empty) {index : UInt32}
    (hdenial : hop.denial? = some (.deniedByRule id index)) :
    (∃ rule ∈ resolved.rules, rule.index = index ∧ rule.Touches q.ends arriving) ∧
      ∀ rule ∈ resolved.rules, rule.Touches q.ends arriving → index ≤ rule.index := by
  have hrule := (denial?_eq_rule hdenial).2
  have hnothing := h.services.symm.trans hempty
  exact ResolvedRuleSet.lowest_of_denying_rule q.ends hascending h.carries.specific
    h.carries.hasPair (congrArg ServiceSet.isEmpty hnothing) (h.decision.symm.trans hrule)

end PathHop

section Query

variable {s : Snapshot} {builtins : Bool} {r : ResolvedSnapshot} {c : Catalog}

theorem Snapshot.mem_configured {p : Device × RuleSet} :
    p ∈ s.configured ↔ p.1 ∈ s.devices ∧ p.2 ∈ p.1.ruleSets := by
  obtain ⟨d, rs⟩ := p
  simp [configured]

theorem Snapshot.governs_of_mem (h : s.resolve builtins = .ok r) (hvalid : s.Valid) :
    ∃ c, Catalog.ofBooks s.networkBooks s.serviceBooks builtins = .ok c ∧
      ∀ resolved ∈ r.ruleSets, ∃ d rs, rs.Valid ∧ r.Governs s c resolved.id d rs resolved := by
  obtain ⟨c, hcatalog, hlisted⟩ := ruleSets_of_resolve h
  refine ⟨c, hcatalog, ?_⟩
  intro resolved hmem
  obtain ⟨⟨d, rs⟩, hconfigured, hlists⟩ := exists_of_mem_right hlisted hmem
  obtain ⟨hd, hrs⟩ := mem_configured.mp hconfigured
  have hplace := filter_eq_singleton (nodup_place hvalid) hconfigured
  have honly := filter_eq_singleton (nodup_ids h hvalid) hmem
  refine ⟨d, rs, (hvalid.devices d hd).ruleSets rs hrs, ?_, hlists.id.symm, honly, hlists⟩
  rw [hlists.id]
  exact hplace

variable {inference : Inference} {g : Graph} {q : FlowQuery} {digest : String} {v : Verdict}
variable (hgoverns : ∀ resolved ∈ r.ruleSets,
  ∃ d rs, rs.Valid ∧ r.Governs s c resolved.id d rs resolved)
variable (hbuild : Graph.build r inference = .ok g)
variable (hlegs : ∀ leg ∈ v.legs, g.Leg q leg.1 leg.2)

include hgoverns hbuild hlegs

/-- The rule set to which a denial is put down decided about the last hop. -/
theorem Verdict.exists_deniedAt (hquery : g.query q digest = .ok v) {id : RuleSetId}
    (hid : v.reason.deniedBy? = some id) :
    ∃ arriving hop resolved, v.DeniedAt r id arriving resolved ∧
      PathHop.DecidedBy hop q arriving resolved ∧ hop.denial? = some v.reason ∧
      hop.services = .empty ∧ (resolved.rules.map (·.index)).Pairwise (· < ·) := by
  obtain ⟨arriving, hop, hlast, hempty, hdenial⟩ := Graph.denial_of_query hquery hid
  obtain ⟨ruleSet, hruleSet, hhop⟩ := PathHop.deniedBy_of_denial? hdenial
  obtain rfl := Option.some.inj (hid.symm.trans hruleSet)
  have hleg := hlegs _ (List.mem_of_getLast? hlast)
  obtain ⟨resolved, hmem, rfl, hdecided⟩ := hleg.exists_decidedBy hbuild hhop
  obtain ⟨d, rs, hrs, hplaced⟩ := hgoverns resolved hmem
  have hat : v.DeniedAt r resolved.id arriving resolved :=
    ⟨⟨hop, hlast, hhop, hempty⟩, hplaced.only⟩
  exact ⟨arriving, hop, resolved, hat, hdecided, hdenial, hempty, hplaced.lists.ascending hrs⟩

theorem Verdict.explained (hquery : g.query q digest = .ok v) (hsame : v.query = q) :
    v.Explained s r c := by
  subst hsame
  refine ⟨?_, ?_, ?_⟩
  · intro leg hmem id hid
    obtain ⟨resolved, hresolved, rfl, hdecided⟩ := (hlegs leg hmem).exists_decidedBy hbuild hid
    obtain ⟨d, rs, hrs, hplaced⟩ := hgoverns resolved hresolved
    exact ⟨d, rs, resolved, hplaced, hdecided.explained hplaced.lists hrs⟩
  · intro id hreason
    have hid : v.reason.deniedBy? = some id := congrArg Reason.deniedBy? hreason
    obtain ⟨arriving, hop, resolved, hat, hdecided, hdenial, hempty, _⟩ :=
      Verdict.exists_deniedAt hgoverns hbuild hlegs hquery hid
    rw [hreason] at hdenial
    exact ⟨arriving, resolved, hat, hdecided.untouched hempty hdenial⟩
  · intro id index hreason
    have hid : v.reason.deniedBy? = some id := congrArg Reason.deniedBy? hreason
    obtain ⟨arriving, hop, resolved, hat, hdecided, hdenial, hempty, hascending⟩ :=
      Verdict.exists_deniedAt hgoverns hbuild hlegs hquery hid
    rw [hreason] at hdenial
    exact ⟨arriving, resolved, hat, hdecided.lowest hascending hempty hdenial⟩

end Query

namespace Engine

/-- The explanation of every answer names what really decided. Each hop that a
rule set governs belongs to one configured rule set, permits if anything gets
through and denies otherwise, and states the rule or the default by which that
rule set answers some flow that arrives, or the flow that was asked about. A
denial is put down to the default only if no rule covers any flow that arrives,
and else to the first rule that does. -/
theorem query_explained {s : Snapshot} {config : EngineConfig} {e : Engine} {q : FlowQuery}
    {v : Verdict} (hload : load s config = .ok e) (hquery : e.query q = .ok v) :
    v.query = q ∧ ∃ c, Catalog.ofBooks s.networkBooks s.serviceBooks config.builtinBooks = .ok c ∧
      v.Explained s e.resolved c := by
  obtain ⟨hresolve, hbuild⟩ := load_eq_ok_iff.mp hload
  obtain ⟨hfault, _, _, _, _, _, _, hresolved⟩ := Snapshot.resolve_eq_ok_iff.mp hresolve
  have hsnapshot : e.resolved.snapshot.fault? = none := by
    rw [hresolved]
    exact hfault
  obtain ⟨rfl, _, _, hcertified⟩ :=
    Graph.certified_of_query (Graph.zone_injective hbuild hsnapshot) hquery
  obtain ⟨c, hcatalog, hgoverns⟩ :=
    Snapshot.governs_of_mem hresolve (Snapshot.fault?_eq_none_iff.mp hfault)
  exact ⟨rfl, c, hcatalog, Verdict.explained hgoverns hbuild hcertified.legs hquery rfl⟩

/-- A device with a rule for each of two protocols, and one that is not enabled. -/
def turnstileDevice : Device where
  id := "gate"
  interfaces := []
  zones := [⟨"lan", [], none⟩, ⟨"wan", [], none⟩]
  ruleSets := [⟨some "outbound", "lan", "wan", .permit,
    [⟨10, .permit, none, none, none, none, none, some .udp, true, none⟩,
      ⟨20, .permit, none, none, none, none, none, some .tcp, false, none⟩,
      ⟨30, .deny, none, none, none, none, none, some .tcp, true, none⟩]⟩]
  routes := []
  adjacencies := []

def turnstile : Snapshot := ⟨none, [turnstileDevice], [], []⟩

private def turnstileId : RuleSetId := ⟨"gate", "lan", "wan", some "outbound"⟩

private def turnstileRules : ResolvedRuleSet where
  id := turnstileId
  defaultAction := .permit
  rules := [⟨10, .permit, .any, .any, ServiceSet.any.restrictTo .udp, none⟩,
    ⟨30, .deny, .any, .any, ServiceSet.any.restrictTo .tcp, none⟩]

private def turnstileGate : ResolvedDevice := ⟨"gate", [turnstileRules], []⟩

private def turnstileResolved : ResolvedSnapshot :=
  ⟨turnstile, turnstile.digest, .empty, [turnstileGate]⟩

private def turnstileGraph : Graph :=
  .ofArcs (turnstileGate.nodes turnstileDevice)
    [⟨⟨0, by decide⟩, ⟨⟨1, by decide⟩, .filtered turnstileRules⟩⟩]

private def turnstileConfig : EngineConfig := ⟨.explicitOnly, false, false⟩

private def turnstileQuery : FlowQuery :=
  ⟨⟨.v4, 2851995649, by decide⟩, ⟨.v4, 2852061185, by decide⟩, .tcp, none, some ⟨"gate", "lan"⟩,
    some ⟨"gate", "wan"⟩⟩

private theorem turnstile_load :
    load turnstile turnstileConfig = .ok ⟨turnstileResolved, turnstileGraph⟩ := by
  have hresolve : turnstile.resolve false = .ok turnstileResolved :=
    Snapshot.resolve_eq_ok_iff.mpr ⟨by decide, ⟨.empty, .empty⟩, .empty,
      [(turnstileGate, .empty)], rfl, rfl, rfl, rfl⟩
  exact load_eq_ok_iff.mpr ⟨hresolve, rfl⟩

private def turnstileLan : Fin turnstileGraph.size := ⟨0, by decide⟩

private def turnstileWan : Fin turnstileGraph.size := ⟨1, by decide⟩

private def turnstileHop : PathHop :=
  ⟨⟨"gate", "lan"⟩, ⟨"gate", "wan"⟩, some turnstileId, .rule 30 .deny, .empty⟩

private def turnstileVerdict : Verdict :=
  turnstileGraph.verdict turnstileLan turnstileWan turnstileQuery turnstile.digest false
    (.deniedByRule turnstileId 30) [turnstileHop] .empty

private theorem turnstile_search :
    turnstileGraph.search turnstileLan turnstileWan turnstileQuery.ends turnstileQuery.offered =
      .denied [turnstileHop] (.deniedByRule turnstileId 30) := by
  have hout : turnstileGraph.leaving turnstileLan = [⟨turnstileWan, .filtered turnstileRules⟩] :=
    Graph.leaving_ofArcs_of_ascending (by decide)
  have hwalk : turnstileGraph.Walk turnstileLan _ turnstileWan :=
    .single (hout ▸ List.mem_singleton_self _)
  refine Graph.search_of_runs hwalk.mem_nodesReaching hout (.single (.refused ?_ ?_)) .denied
  · exact Graph.mem_nodesReaching_self turnstileWan
  · decide

/-- Asked about all ports of a protocol, the gate puts the denial down to the
enabled rule for that protocol. -/
private theorem turnstile_query :
    query ⟨turnstileResolved, turnstileGraph⟩ turnstileQuery = .ok turnstileVerdict := by
  have hne : turnstileLan ≠ turnstileWan := by decide
  refine Graph.query_eq_ok_iff.mpr ⟨turnstileLan, turnstileWan, rfl, rfl, ?_⟩
  unfold Graph.answer
  rw [if_neg hne, turnstile_search]
  rfl

theorem turnstile_explained :
    load turnstile turnstileConfig = .ok ⟨turnstileResolved, turnstileGraph⟩ ∧
      query ⟨turnstileResolved, turnstileGraph⟩ turnstileQuery = .ok turnstileVerdict ∧
      turnstileVerdict.query = turnstileQuery ∧
      ∃ c, Catalog.ofBooks turnstile.networkBooks turnstile.serviceBooks false = .ok c ∧
        turnstileVerdict.Explained turnstile turnstileResolved c :=
  ⟨turnstile_load, turnstile_query, query_explained turnstile_load turnstile_query⟩

end Engine

end Perimeter
