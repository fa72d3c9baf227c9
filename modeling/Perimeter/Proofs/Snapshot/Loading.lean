import Perimeter.Engine
import Perimeter.Proofs.Snapshot.Acceptance
import Perimeter.Proofs.Snapshot.RuleSets
import Perimeter.Proofs.Topology.Declared

/-!
Which snapshots are loaded: those that are well-formed, in their structure, in
their books and in the zones that they name. For any other the error tells of
something that is wrong with it.
-/

namespace Perimeter

namespace Snapshot

/-- A snapshot with nothing wrong in it. -/
structure WellFormed (s : Snapshot) (builtins : Bool) : Prop where
  structured : s.Valid
  books : s.BooksValid builtins
  graph : s.GraphValid

/-- What an error says that stops loading is so. -/
inductive HasLoadFault (s : Snapshot) (builtins : Bool) : LoadError → Prop where
  | structured {e : SnapshotError} (h : s.HasFault e) : HasLoadFault s builtins (.snapshot e)
  | books {e : BookError} (h : s.HasBookFault builtins e) :
      HasLoadFault s builtins (.snapshot (.book e))
  | graph {e : GraphError} (h : s.HasGraphFault e) : HasLoadFault s builtins (.graph e)

variable {s : Snapshot} {builtins : Bool} {resolved : ResolvedSnapshot} {inference : Inference}

/-- A resolved snapshot has the rule sets and the nodes of the one it comes from. -/
structure Underlies (s : Snapshot) (resolved : ResolvedSnapshot) : Prop where
  same : resolved.snapshot = s
  nodes : ∀ zone, zone ∈ resolved.nodes.map (·.zone) ↔ s.Declares zone
  ruleSets : ∃ c, List.Forall₂ (fun d (r : ResolvedDevice) => r.id = d.id ∧
    List.Forall₂ (fun rs resolved => ResolvedRuleSet.Lists resolved c d.id rs) d.ruleSets
      r.ruleSets) s.devices resolved.devices

theorem underlies_of_resolve (h : s.resolve builtins = .ok resolved) : s.Underlies resolved := by
  obtain ⟨c, _, hdevices⟩ := devices_of_resolve h
  obtain ⟨_, _, _, _, _, _, _, rfl⟩ := resolve_eq_ok_iff.mp h
  refine ⟨rfl, ?_, c, hdevices⟩
  intro zone
  exact ResolvedSnapshot.mem_nodes_iff hdevices.length_eq

theorem Underlies.graphValid (h : s.Underlies resolved) (hvalid : s.Valid) {g : Graph}
    (hbuild : Graph.build resolved inference = .ok g) : s.GraphValid := by
  obtain ⟨rfl, hnodes, c, hdevices⟩ := h
  obtain ⟨hruleSets, hlinks⟩ := Graph.mem_nodes_of_build hbuild
  constructor
  · intro d hd rs hrs
    obtain ⟨r, hr, hid, hlisted⟩ := exists_of_mem_left hdevices hd
    obtain ⟨rs', hrs', hruleSet⟩ := exists_of_mem_left hlisted hrs
    obtain ⟨hfrom, hto⟩ := hruleSets r hr rs' hrs'
    rw [hid, hruleSet.id, hnodes] at hfrom hto
    exact ⟨hfrom.mem_zones hvalid hd, hto.mem_zones hvalid hd⟩
  · intro d hd a ha hne
    obtain ⟨l, hl, hsource, htarget⟩ := exists_link inference hd ha hne
    obtain ⟨hhere, hpeer⟩ := hlinks l hl
    rw [hsource, hnodes] at hhere
    rw [htarget, hnodes] at hpeer
    exact ⟨hhere, hpeer⟩

theorem Declares.mem_devices {zone : ZoneRef} (h : s.Declares zone) :
    zone.device ∈ s.devices.map (·.id) := by
  obtain ⟨d, hd, hid, _⟩ := h
  exact List.mem_map.mpr ⟨d, hd, hid⟩

theorem Underlies.graphFault (h : s.Underlies resolved) {e : GraphError}
    (hbuild : Graph.build resolved inference = .error e) : s.HasGraphFault e := by
  obtain ⟨rfl, hnodes, c, hdevices⟩ := h
  rcases Graph.missing_of_build hbuild with ⟨r, hr, rs', hrs', zone, hzone, hmissing, rfl⟩ |
    ⟨l, hl, zone, hzone, hfault⟩
  · obtain ⟨d, hd, hid, hlisted⟩ := exists_of_mem_right hdevices hr
    obtain ⟨rs, hrs, hruleSet⟩ := exists_of_mem_right hlisted hrs'
    rw [hid, hruleSet.id] at hzone
    rw [hnodes] at hmissing
    rcases hzone with rfl | rfl
    · exact .ruleSet hd hrs (Or.inl rfl) fun hmem => hmissing ⟨d, hd, rfl, hmem⟩
    · exact .ruleSet hd hrs (Or.inr rfl) fun hmem => hmissing ⟨d, hd, rfl, hmem⟩
  · rw [hnodes] at hfault
    rcases ends_of_mem_links hl with ⟨hsource, htarget⟩ | ⟨d, hd, a, ha, hne, hends⟩
    · -- an inferred link, whose ends are declared
      have hdeclared : resolved.snapshot.Declares zone := by
        rcases hzone with rfl | rfl
        · exact hsource
        · exact htarget
      rcases hfault with ⟨hmissing, _⟩ | ⟨hunknown, _⟩
      · exact absurd hdeclared hmissing
      · exact absurd hdeclared.mem_devices hunknown
    · have hzone : zone = a.here d.id ∨ zone = a.peer := by
        rcases hends with ⟨hsource, htarget⟩ | ⟨hsource, htarget⟩
        · rwa [hsource, htarget] at hzone
        · rw [hsource, htarget] at hzone
          exact hzone.symm
      rcases hfault with ⟨hmissing, rfl⟩ | ⟨hunknown, rfl⟩
      · exact .zone hd ha hne hzone hmissing
      · rcases hzone with rfl | rfl
        · exact absurd (List.mem_map_of_mem hd) hunknown
        · exact .device hd ha hne hunknown

theorem HasLoadFault.not_wellFormed {e : LoadError} (h : s.HasLoadFault builtins e) :
    ¬s.WellFormed builtins := by
  intro hformed
  cases h with
  | structured hfault => exact hfault.not_valid hformed.structured
  | books hfault => exact hfault.not_booksValid hformed.books
  | graph hfault => exact hfault.not_graphValid hformed.graph

theorem wellFormed_of_load {config : EngineConfig} {engine : Engine}
    (h : Engine.load s config = .ok engine) : s.WellFormed config.builtinBooks := by
  obtain ⟨resolved, hresolved, hrest⟩ := bind_eq_ok.mp h
  obtain ⟨g, hgraph, _⟩ := bind_eq_ok.mp hrest
  have hresolve := mapError_eq_ok.mp hresolved
  obtain ⟨hvalid, hbooks⟩ := booksValid_of_resolve hresolve
  have hunderlies := underlies_of_resolve hresolve
  exact ⟨hvalid, hbooks, hunderlies.graphValid hvalid (mapError_eq_ok.mp hgraph)⟩

theorem hasLoadFault_of_load {config : EngineConfig} {e : LoadError}
    (h : Engine.load s config = .error e) : s.HasLoadFault config.builtinBooks e := by
  rcases bind_eq_error.mp h with hresolved | ⟨resolved, hresolved, hrest⟩
  · obtain ⟨e', hresolve, rfl⟩ := mapError_eq_error.mp hresolved
    rcases fault_of_resolve hresolve with hfault | ⟨e'', rfl, hfault⟩
    · exact .structured hfault
    · exact .books hfault
  · have hunderlies := underlies_of_resolve (mapError_eq_ok.mp hresolved)
    rcases bind_eq_error.mp hrest with hgraph | ⟨_, _, hdone⟩
    · obtain ⟨e', hbuild, rfl⟩ := mapError_eq_error.mp hgraph
      exact .graph (hunderlies.graphFault hbuild)
    · cases hdone

theorem WellFormed.exists_load {config : EngineConfig} (h : s.WellFormed config.builtinBooks) :
    ∃ engine, Engine.load s config = .ok engine := by
  cases hload : Engine.load s config with
  | ok engine => exact ⟨engine, rfl⟩
  | error e => exact absurd h (hasLoadFault_of_load hload).not_wellFormed

/-- Loading accepts exactly the well-formed snapshots. Under every configuration
a snapshot is loaded if and only if its structure is valid, its books and the
names for them are, and so are the zones that rule sets and adjacencies name. Of
any other snapshot the error states something that is wrong with it. -/
theorem load_iff_wellFormed (s : Snapshot) (config : EngineConfig) :
    ((∃ engine, Engine.load s config = .ok engine) ↔ s.WellFormed config.builtinBooks) ∧
      ∀ e, Engine.load s config = .error e → s.HasLoadFault config.builtinBooks e := by
  refine ⟨⟨?_, ?_⟩, fun e => hasLoadFault_of_load⟩
  · rintro ⟨engine, h⟩
    exact wellFormed_of_load h
  · intro hformed
    cases hload : Engine.load s config with
    | ok engine => exact ⟨engine, rfl⟩
    | error e => exact absurd hformed (hasLoadFault_of_load hload).not_wellFormed

end Snapshot

end Perimeter
