import Perimeter.Proofs.Book.Catalog
import Perimeter.Proofs.Checked
import Perimeter.Proofs.Rule.Meaning
import Perimeter.Snapshot.Resolution

/-!
Resolution of a snapshot against what its rules say. Every device is resolved
with the sound tables of the global books, and its rules with what its own books
added to them; so each resolved rule stands for the configured one, and each
resolved rule set answers every flow as the configured rules decide.
-/

namespace Perimeter

namespace Catalog

variable {c : Catalog} {α : Type} {r : Resolver}

theorem Finds.fromEmpty {work : Resolving α} {P : α → Prop} (h : c.Finds work P) {a : α}
    {tables : BookTables} (hok : Resolver.fromEmpty work = .ok (a, tables)) :
    P a ∧ c.Sound tables := by
  obtain ⟨hsound, hresult⟩ := h .empty sound_empty
  unfold Resolver.fromEmpty at hok
  cases hrun : work.run.run .empty with
  | mk result after =>
    rw [hrun] at hok hsound hresult
    cases result with
    | ok b =>
      cases hok
      exact ⟨hresult _ rfl, hsound⟩
    | error e => cases hok

theorem sound_resolveGlobals {globals : BookTables} (h : c.resolveGlobals = .ok globals) :
    c.Sound globals := by
  unfold resolveGlobals at h
  cases hwork : Resolver.fromEmpty (Resolver.resolveScope ⟨c, .empty⟩ .global) with
  | ok outcome =>
    rw [hwork] at h
    cases h
    exact (Finds.fromEmpty (finds_resolveScope sound_empty .global) hwork).2
  | error e =>
    rw [hwork] at h
    cases h

/-- Where a rule names no network book, it gets the set of all addresses. -/
theorem finds_networkOrAny (hshared : r.catalog.Sound r.shared) (book : Option String)
    (scope : Scope) :
    r.catalog.Finds (r.networkOrAny book scope) fun set => ∀ a, set.contains a = true ↔
      ∀ name ∈ book, r.catalog.networks.NameCovers name scope a := by
  cases book with
  | none =>
    apply finds_pure
    intro a
    simp
  | some name =>
    apply (finds_network hshared name scope).mono
    intro set hstands a
    have hcovers : r.catalog.networks.NameCovers name scope a ↔ set.contains a = true :=
      hstands.nameCovers_iff a
    simpa using hcovers.symm

theorem finds_serviceOrAny (hshared : r.catalog.Sound r.shared) (book : Option String)
    (scope : Scope) :
    r.catalog.Finds (r.serviceOrAny book scope) fun set => ∀ p port,
      set.contains p port = true ↔
        ∀ name ∈ book, r.catalog.services.NameCovers name scope (p, port) := by
  cases book with
  | none =>
    apply finds_pure
    intro p port
    simp
  | some name =>
    apply (finds_service hshared name scope).mono
    intro set hstands p port
    have hcovers :
        r.catalog.services.NameCovers name scope (p, port) ↔ set.contains p port = true :=
      hstands.nameCovers_iff (p, port)
    simpa using hcovers.symm

/-- A rule is resolved to one that stands for it, enabled or not. -/
theorem finds_rule (hshared : r.catalog.Sound r.shared) (scope : Scope) (rule : AclRule) :
    r.catalog.Finds (r.rule scope rule) fun resolved =>
      resolved.Reflects r.catalog scope rule := by
  apply (finds_networkOrAny hshared rule.sourceBook scope).bind
  intro source hsource
  apply (finds_networkOrAny hshared rule.destinationBook scope).bind
  intro destination hdestination
  apply (finds_serviceOrAny hshared rule.serviceBook scope).bind
  intro services hservices
  apply finds_pure
  refine ⟨rfl, rfl, hsource, hdestination, ?_⟩
  intro p port
  cases rule.protocol with
  | none => simpa using hservices p port
  | some q =>
    change (services.restrictTo q).contains p port = true ↔ _
    rw [ServiceSet.contains_restrictTo, hservices]
    simp

end Catalog

/-- A resolved rule set answers for a configured one: it is about the same
direction and decides every flow as the configured rules do, whatever rules that
are not enabled stand among them. -/
structure ResolvedRuleSet.AnswersFor (resolved : ResolvedRuleSet) (c : Catalog) (device : String)
    (rs : RuleSet) : Prop where
  id : resolved.id = rs.id device
  decides : ∀ flow answer, resolved.evaluate flow = answer ↔
    c.Decides (.device device) flow rs.defaultAction rs.rules answer
  enabledOnly : ∀ rules : List AclRule,
    rules.filter (·.enabled) = rs.rules.filter (·.enabled) → ∀ flow answer,
      resolved.evaluate flow = answer ↔
        c.Decides (.device device) flow rs.defaultAction rules answer

/-- A resolved device has a rule set for each that is configured, in order. -/
structure ResolvedDevice.AnswersFor (resolved : ResolvedDevice) (c : Catalog) (d : Device) :
    Prop where
  id : resolved.id = d.id
  ruleSets : List.Forall₂ (fun rs resolved => ResolvedRuleSet.AnswersFor resolved c d.id rs)
    d.ruleSets resolved.ruleSets

/-- A zone that names an address book has a slot for its name and the set for
which the book stands. -/
def Zone.Fills (z : Zone) (c : Catalog) (device : String) (slot : Option (String × NetworkSet)) :
    Prop :=
  match z.addressBook with
  | some book => ∃ set, c.networks.StandsFor book (.device device) set ∧ slot = some (z.name, set)
  | none => slot = none

/-- The address books of the zones of a device that name one, in order. -/
def Catalog.HasZoneBooks (c : Catalog) (d : Device) (books : List (String × NetworkSet)) : Prop :=
  ∃ slots, List.Forall₂ (fun z slot => Zone.Fills z c d.id slot) d.zones slots ∧
    books = slots.filterMap id

namespace Catalog

variable {c : Catalog} {r : Resolver}

/-- Each rule gets a slot, which is filled where the rule is enabled. -/
theorem finds_slots {P : AclRule → ResolvedRule → Prop} {scope : Scope}
    (hrule : ∀ rule, r.catalog.Finds (r.rule scope rule) (P rule)) (rules : List AclRule) :
    r.catalog.Finds
      (rules.mapM fun rule => do
        let resolved ← r.rule scope rule
        return if rule.enabled then some resolved else none)
      (List.Forall₂ (fun rule slot => ∃ resolved : ResolvedRule,
        P rule resolved ∧ slot = if rule.enabled then some resolved else none) rules) := by
  apply finds_mapM
  intro rule _
  apply (hrule rule).bind
  intro resolved hresolved
  exact finds_pure ⟨resolved, hresolved, rfl⟩

theorem finds_ruleSet (hshared : r.catalog.Sound r.shared) (device : String) (rs : RuleSet) :
    r.catalog.Finds (r.ruleSet device rs) fun resolved =>
      resolved.AnswersFor r.catalog device rs := by
  apply (finds_slots (finds_rule hshared (.device device)) rs.rules).bind
  intro slots hslots
  apply finds_pure
  let resolved : ResolvedRuleSet := ⟨rs.id device, rs.defaultAction, slots.filterMap id⟩
  have hdecides : ∀ flow answer, resolved.evaluate flow = answer ↔
      r.catalog.Decides (.device device) flow rs.defaultAction rs.rules answer :=
    fun _ _ => answer_eq_iff_decides hslots
  refine ⟨rfl, hdecides, ?_⟩
  intro rules henabled flow answer
  rw [← decides_filter_enabled rules, henabled, decides_filter_enabled]
  exact hdecides flow answer

theorem finds_zoneBooks (hshared : r.catalog.Sound r.shared) (d : Device) :
    r.catalog.Finds (r.zoneBooks d) (r.catalog.HasZoneBooks d) := by
  unfold Resolver.zoneBooks
  apply Finds.bind (P := List.Forall₂ (fun z slot => z.Fills r.catalog d.id slot) d.zones)
  · apply finds_mapM
    intro z _
    unfold Zone.Fills
    cases z.addressBook with
    | none => exact finds_pure rfl
    | some book =>
      apply (finds_network hshared book (.device d.id)).bind
      intro set hset
      exact finds_pure ⟨set, hset, rfl⟩
  · intro slots hslots
    exact finds_pure ⟨slots, hslots, rfl⟩

/-- What is found for a device, given what is found for each of its rule sets. -/
theorem finds_parts {P : RuleSet → ResolvedRuleSet → Prop} (hshared : r.catalog.Sound r.shared)
    (d : Device) (hruleSet : ∀ rs, r.catalog.Finds (r.ruleSet d.id rs) (P rs)) :
    r.catalog.Finds (r.device d) fun resolved => resolved.id = d.id ∧
      List.Forall₂ P d.ruleSets resolved.ruleSets ∧
        r.catalog.HasZoneBooks d resolved.zoneBooks := by
  apply (finds_resolveScope hshared (.device d.id)).bind
  intro _ _
  apply (finds_mapM fun rs _ => hruleSet rs).bind
  intro ruleSets hruleSets
  apply (finds_zoneBooks hshared d).bind
  intro zoneBooks hzoneBooks
  exact finds_pure ⟨rfl, hruleSets, hzoneBooks⟩

theorem finds_device (hshared : r.catalog.Sound r.shared) (d : Device) :
    r.catalog.Finds (r.device d) fun resolved => resolved.AnswersFor r.catalog d :=
  (finds_parts hshared d (finds_ruleSet hshared d.id)).mono fun _ h => ⟨h.1, h.2.1⟩

end Catalog

namespace Snapshot

/-- What it takes for a snapshot to be resolved: it has no fault, its books make
up a catalog, and the global books and then every device are resolved. -/
theorem resolve_eq_ok_iff {s : Snapshot} {builtins : Bool} {resolved : ResolvedSnapshot} :
    s.resolve builtins = .ok resolved ↔
      s.fault? = none ∧ ∃ catalog globals devices,
        Catalog.ofBooks s.networkBooks s.serviceBooks builtins = .ok catalog ∧
          catalog.resolveGlobals = .ok globals ∧
          s.devices.mapM (catalog.resolveDevice globals) = .ok devices ∧
          resolved = ⟨s, s.digest, (devices.map (·.2)).foldl .merge globals,
            devices.map (·.1)⟩ := by
  unfold resolve
  cases hfault : s.fault? with
  | some e =>
    constructor
    · intro h
      cases h
    · rintro ⟨h, _⟩
      cases h
  | none =>
    constructor
    · intro h
      obtain ⟨catalog, hcatalog, h⟩ := bind_eq_ok.mp h
      obtain ⟨globals, hglobals, h⟩ := bind_eq_ok.mp h
      obtain ⟨devices, hdevices, h⟩ := bind_eq_ok.mp h
      cases h
      exact ⟨rfl, catalog, globals, devices, mapError_eq_ok.mp hcatalog,
        mapError_eq_ok.mp hglobals, mapError_eq_ok.mp hdevices, rfl⟩
    · rintro ⟨_, catalog, globals, devices, hcatalog, hglobals, hdevices, rfl⟩
      apply bind_eq_ok.mpr
      refine ⟨catalog, mapError_eq_ok.mpr hcatalog, bind_eq_ok.mpr ?_⟩
      refine ⟨globals, mapError_eq_ok.mpr hglobals, bind_eq_ok.mpr ?_⟩
      exact ⟨devices, mapError_eq_ok.mpr hdevices, rfl⟩

/-- The books and the rules of a snapshot, without its digest. -/
def work (s : Snapshot) (c : Catalog) : Except BookError (List (ResolvedDevice × BookTables)) := do
  let globals ← c.resolveGlobals
  s.devices.mapM (c.resolveDevice globals)

theorem exists_resolve {s : Snapshot} {builtins : Bool} {c : Catalog} (hfault : s.fault? = none)
    (hcatalog : Catalog.ofBooks s.networkBooks s.serviceBooks builtins = .ok c)
    (hwork : (s.work c).toBool = true) : ∃ resolved, s.resolve builtins = .ok resolved := by
  cases hrun : s.work c with
  | error e =>
    rw [hrun] at hwork
    cases hwork
  | ok devices =>
    obtain ⟨globals, hglobals, hdevices⟩ := bind_eq_ok.mp hrun
    exact ⟨_, resolve_eq_ok_iff.mpr ⟨hfault, c, globals, devices, hcatalog, hglobals, hdevices, rfl⟩⟩

/-- Resolution keeps the meaning of rules. In a snapshot that is resolved, the
rule sets of every device answer each flow with the first configured rule that
is enabled and applies to it, its names read in the scope of the device, and
with the default where there is no such rule. -/
theorem resolve_answersFor {s : Snapshot} {builtins : Bool} {resolved : ResolvedSnapshot}
    (h : s.resolve builtins = .ok resolved) :
    ∃ catalog, Catalog.ofBooks s.networkBooks s.serviceBooks builtins = .ok catalog ∧
      List.Forall₂ (fun d resolved => ResolvedDevice.AnswersFor resolved catalog d) s.devices
        resolved.devices := by
  obtain ⟨_, catalog, globals, devices, hcatalog, hglobals, hdevices, rfl⟩ :=
    resolve_eq_ok_iff.mp h
  refine ⟨catalog, hcatalog, ?_⟩
  apply List.forall₂_map_right_iff.mpr
  apply (mapM_eq_ok_iff.mp hdevices).imp
  rintro d ⟨device, tables⟩ hdevice
  have hsound := Catalog.sound_resolveGlobals hglobals
  exact (Catalog.Finds.fromEmpty (Catalog.finds_device hsound d) hdevice).1

/-- One device whose rules name a global book and one of the device that hides
another global one; the first rule is not enabled. -/
def guarded : Snapshot where
  toolRunId := none
  devices := [⟨"fw", [], [⟨"in", [], none⟩, ⟨"out", [], none⟩],
    [⟨none, "in", "out", .deny,
      [⟨10, .deny, none, none, none, none, none, none, false, none⟩,
        ⟨20, .permit, none, some "hosts", none, none, some "web", some .tcp, true, none⟩]⟩],
    [], []⟩]
  networkBooks := [⟨"hosts", .global, [.literal ⟨⟨.v4, 3232235777, by decide⟩, 32, by decide⟩], []⟩,
    ⟨"hosts", .device "fw", [.literal ⟨⟨.v4, 3232301313, by decide⟩, 32, by decide⟩], []⟩]
  serviceBooks := [⟨"web", .global, [.literal ⟨none, ⟨80, 80⟩⟩, .literal ⟨none, ⟨443, 443⟩⟩], []⟩]

private def guardedCatalog : Catalog :=
  ⟨.ofDistinct guarded.networkBooks (by decide), .ofDistinct guarded.serviceBooks (by decide)⟩

private theorem guarded_resolves : ∃ resolved, guarded.resolve false = .ok resolved :=
  exists_resolve (c := guardedCatalog) (by decide) rfl (by decide +kernel)

theorem guarded_answersFor :
    ∃ resolved, guarded.resolve false = .ok resolved ∧
      ∃ catalog, Catalog.ofBooks guarded.networkBooks guarded.serviceBooks false = .ok catalog ∧
        List.Forall₂ (fun d resolved => ResolvedDevice.AnswersFor resolved catalog d)
          guarded.devices resolved.devices := by
  obtain ⟨resolved, hresolved⟩ := guarded_resolves
  exact ⟨resolved, hresolved, resolve_answersFor hresolved⟩

end Snapshot

end Perimeter
