import Perimeter.Proofs.Snapshot.Resolution
import Perimeter.Proofs.Snapshot.Validation
import Perimeter.Proofs.Topology.Build

/-!
The rule sets of a resolved snapshot, one for each that is configured, with the
enabled rules in order. A valid snapshot has one rule set for each device and
direction, and in each of them one rule for an index.
-/

namespace Perimeter

/-- A resolved rule set has the enabled rules of a configured one, in order. -/
structure ResolvedRuleSet.Lists (resolved : ResolvedRuleSet) (c : Catalog) (device : String)
    (rs : RuleSet) : Prop where
  id : resolved.id = rs.id device
  defaultAction : resolved.defaultAction = rs.defaultAction
  rules : List.Forall₂ (fun rule r => ResolvedRule.Reflects r c (.device device) rule)
    (rs.rules.filter (·.enabled)) resolved.rules

namespace Catalog

variable {c : Catalog} {r : Resolver}

/-- The slots that are filled belong to the enabled rules. -/
theorem forall₂_filterMap_slots {P : AclRule → ResolvedRule → Prop} {rules : List AclRule}
    {slots : List (Option ResolvedRule)}
    (h : List.Forall₂ (fun rule slot => ∃ resolved : ResolvedRule, P rule resolved ∧
      slot = if rule.enabled then some resolved else none) rules slots) :
    List.Forall₂ P (rules.filter (·.enabled)) (slots.filterMap id) := by
  induction h with
  | nil => exact .nil
  | @cons rule slot _ _ hhead _ ih =>
    obtain ⟨resolved, hresolved, rfl⟩ := hhead
    cases henabled : rule.enabled with
    | true => simpa [henabled] using ⟨hresolved, ih⟩
    | false => simpa [henabled] using ih

/-- What is found for a rule set, given what is found for each of its rules. -/
theorem finds_enabledRules {P : AclRule → ResolvedRule → Prop} {device : String}
    (hrule : ∀ rule, r.catalog.Finds (r.rule (.device device) rule) (P rule)) (rs : RuleSet) :
    r.catalog.Finds (r.ruleSet device rs) fun resolved => resolved.id = rs.id device ∧
      resolved.defaultAction = rs.defaultAction ∧
        List.Forall₂ P (rs.rules.filter (·.enabled)) resolved.rules := by
  apply (finds_slots hrule rs.rules).bind
  intro slots hslots
  exact finds_pure ⟨rfl, rfl, forall₂_filterMap_slots hslots⟩

theorem finds_listedRules (hshared : r.catalog.Sound r.shared) (device : String) (rs : RuleSet) :
    r.catalog.Finds (r.ruleSet device rs) fun resolved => resolved.Lists r.catalog device rs :=
  (finds_enabledRules (finds_rule hshared (.device device)) rs).mono
    fun _ ⟨hid, hdefault, hrules⟩ => ⟨hid, hdefault, hrules⟩

theorem finds_listedRuleSets (hshared : r.catalog.Sound r.shared) (d : Device) :
    r.catalog.Finds (r.device d) fun resolved => resolved.id = d.id ∧
      List.Forall₂ (fun rs resolved => ResolvedRuleSet.Lists resolved r.catalog d.id rs)
        d.ruleSets resolved.ruleSets :=
  (finds_parts hshared d (finds_listedRules hshared d.id)).mono fun _ h => ⟨h.1, h.2.1⟩

end Catalog

/-- The rule sets of a snapshot, each with its device. -/
def Snapshot.configured (s : Snapshot) : List (Device × RuleSet) :=
  s.devices.flatMap fun d => d.ruleSets.map (d, ·)

/-- What tells the rule sets of a valid snapshot apart, names left out. -/
def RuleSetId.place (id : RuleSetId) : String × String × String :=
  (id.device, id.fromZone, id.toZone)

theorem RuleSet.Valid.ascending_enabled {rs : RuleSet} (h : rs.Valid) :
    ((rs.rules.filter (·.enabled)).map (·.index)).Pairwise (· < ·) :=
  h.ascending.sublist (List.filter_sublist.map _)

namespace ResolvedRuleSet.Lists

variable {resolved : ResolvedRuleSet} {c : Catalog} {device : String} {rs : RuleSet}

/-- The rules that are resolved keep the order of the configured ones. -/
theorem ascending (h : resolved.Lists c device rs) (hvalid : rs.Valid) :
    (resolved.rules.map (·.index)).Pairwise (· < ·) := by
  have hindices : (rs.rules.filter (·.enabled)).map (·.index) = resolved.rules.map (·.index) :=
    map_eq_map_of_forall₂ h.rules fun _ _ hreflects => hreflects.index.symm
  rw [← hindices]
  exact hvalid.ascending_enabled

/-- An index in an answer is that of one enabled rule, whose action it is. -/
theorem rule_of_evaluate (h : resolved.Lists c device rs) (hvalid : rs.Valid) {flow : Flow}
    {action : Action} {index : UInt32} (hanswer : resolved.evaluate flow = (action, some index)) :
    ∃ rule, (rs.rules.filter (·.enabled)).filter (·.index = index) = [rule] ∧
      rule.action = action := by
  unfold evaluate at hanswer
  cases hfind : resolved.rules.find? (·.covers flow) with
  | none =>
    rw [hfind] at hanswer
    cases hanswer
  | some r =>
    rw [hfind] at hanswer
    cases hanswer
    obtain ⟨rule, hrule, hreflects⟩ := exists_of_mem_right h.rules (List.mem_of_find?_eq_some hfind)
    have hindices : ((rs.rules.filter (·.enabled)).map (·.index)).Nodup :=
      hvalid.ascending_enabled.imp UInt32.ne_of_lt
    refine ⟨rule, ?_, hreflects.action.symm⟩
    rw [hreflects.index]
    exact filter_eq_singleton hindices hrule

theorem default_of_evaluate (h : resolved.Lists c device rs) {flow : Flow} {action : Action}
    (hanswer : resolved.evaluate flow = (action, none)) : action = rs.defaultAction := by
  unfold evaluate at hanswer
  split at hanswer
  · cases hanswer
  · cases hanswer
    exact h.defaultAction

end ResolvedRuleSet.Lists

namespace Snapshot

variable {s : Snapshot} {builtins : Bool} {resolved : ResolvedSnapshot}

/-- Resolution keeps devices, rule sets and enabled rules in their order. -/
theorem devices_of_resolve (h : s.resolve builtins = .ok resolved) :
    ∃ c, Catalog.ofBooks s.networkBooks s.serviceBooks builtins = .ok c ∧
      List.Forall₂ (fun d (r : ResolvedDevice) => r.id = d.id ∧
        List.Forall₂ (fun rs resolved => ResolvedRuleSet.Lists resolved c d.id rs) d.ruleSets
          r.ruleSets) s.devices resolved.devices := by
  obtain ⟨_, c, globals, devices, hcatalog, hglobals, hdevices, rfl⟩ := resolve_eq_ok_iff.mp h
  have hsound := Catalog.sound_resolveGlobals hglobals
  refine ⟨c, hcatalog, List.forall₂_map_right_iff.mpr ?_⟩
  apply (mapM_eq_ok_iff.mp hdevices).imp
  rintro d ⟨device, tables⟩ hdevice
  exact (Catalog.Finds.fromEmpty (Catalog.finds_listedRuleSets hsound d) hdevice).1

theorem ruleSets_of_resolve (h : s.resolve builtins = .ok resolved) :
    ∃ c, Catalog.ofBooks s.networkBooks s.serviceBooks builtins = .ok c ∧
      List.Forall₂ (fun (p : Device × RuleSet) r => ResolvedRuleSet.Lists r c p.1.id p.2)
        s.configured resolved.ruleSets := by
  obtain ⟨c, hcatalog, hdevices⟩ := devices_of_resolve h
  refine ⟨c, hcatalog, ?_⟩
  unfold configured ResolvedSnapshot.ruleSets
  apply List.rel_flatMap hdevices
  rintro d r ⟨_, hruleSets⟩
  exact List.forall₂_map_left_iff.mpr hruleSets

/-- Where the rule set of a device is placed. -/
def place (p : Device × RuleSet) : String × String × String := (p.2.id p.1.id).place

/-- A valid snapshot has one rule set for each device and direction. -/
theorem nodup_place (hvalid : s.Valid) : (s.configured.map place).Nodup := by
  unfold configured
  rw [List.map_flatMap, List.nodup_flatMap]
  constructor
  · intro d hd
    rw [List.map_map]
    have hdirections : d.ruleSets.map (place ∘ (d, ·)) =
        (d.ruleSets.map RuleSet.direction).map (d.id, ·) := by
      rw [List.map_map]
      rfl
    rw [hdirections]
    exact (hvalid.devices d hd).directions.map fun _ _ hsame => (Prod.mk.inj hsame).2
  · apply (List.pairwise_map.mp hvalid.distinct).imp
    intro d d' hne p hp hp'
    obtain ⟨_, hq, rfl⟩ := List.mem_map.mp hp
    obtain ⟨_, hq', hsame⟩ := List.mem_map.mp hp'
    obtain ⟨_, _, rfl⟩ := List.mem_map.mp hq
    obtain ⟨_, _, rfl⟩ := List.mem_map.mp hq'
    exact hne (Prod.mk.inj hsame).1.symm

/-- The rule sets of a resolved snapshot have distinct identities. -/
theorem nodup_ids (h : s.resolve builtins = .ok resolved) (hvalid : s.Valid) :
    (resolved.ruleSets.map (·.id)).Nodup := by
  obtain ⟨c, _, hlists⟩ := ruleSets_of_resolve h
  have hids : s.configured.map (fun p => p.2.id p.1.id) = resolved.ruleSets.map (·.id) :=
    map_eq_map_of_forall₂ hlists fun _ _ hlisted => hlisted.id.symm
  rw [← hids]
  apply List.Nodup.of_map RuleSetId.place
  rw [List.map_map]
  exact nodup_place hvalid

end Snapshot

end Perimeter
