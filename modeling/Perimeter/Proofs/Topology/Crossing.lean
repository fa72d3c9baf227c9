import Perimeter.Proofs.Topology.Joins
import Perimeter.Proofs.Topology.Linked

/-!
Edges between the zones of one device. Inferred links cross from one device to
another, but nothing keeps a device from declaring an adjacency to a zone of its
own. Such an adjacency makes for a link beside the rule set for the two zones, and
it is the only thing that does. Where there is none, the zones of a device are
joined by its rule sets alone.
-/

namespace Perimeter

/-- A device declares an adjacency between two zones of its own that counts in
this direction. -/
def Snapshot.LinksWithin (s : Snapshot) (source target : ZoneRef) : Prop :=
  source ≠ target ∧ ∃ d ∈ s.devices, ∃ a ∈ d.adjacencies, a.peerDevice = d.id ∧
    ((source = a.here d.id ∧ target = a.peer) ∨
      (a.bidirectional = true ∧ source = a.peer ∧ target = a.here d.id))

instance (s : Snapshot) (source target : ZoneRef) : Decidable (s.LinksWithin source target) :=
  inferInstanceAs (Decidable (_ ∧ ∃ d ∈ s.devices, ∃ a ∈ d.adjacencies, _))

/-- The snapshot has a rule set of a device for two zones. -/
def Snapshot.HasRuleSet (s : Snapshot) (d : Device) (rs : RuleSet) (source target : ZoneRef) :
    Prop :=
  d ∈ s.devices ∧ rs ∈ d.ruleSets ∧ source = ⟨d.id, rs.fromZone⟩ ∧ target = ⟨d.id, rs.toZone⟩

/-- Between two zones one edge leads at most, and none but that of the rule set
which the snapshot has for them. -/
structure Graph.GovernedBy (g : Graph) (s : Snapshot) (c : Catalog) (source target : ZoneRef) :
    Prop where
  ruleSet : ∀ kind, g.Joins source target kind → ∃ resolved, kind = .filtered resolved ∧
    ∃ d rs, s.HasRuleSet d rs source target ∧ resolved.Lists c d.id rs
  single : ∀ i, g.zone i = source → ∀ e ∈ g.leaving i, ∀ f ∈ g.leaving i,
    g.zone e.target = target → g.zone f.target = target → e = f
  joined : ∀ d rs, s.HasRuleSet d rs source target → ∃ kind, g.Joins source target kind

namespace Snapshot

variable {s : Snapshot} {builtins : Bool} {resolved : ResolvedSnapshot} {inference : Inference}
  {g : Graph} {source target : ZoneRef}

/-- A link inside a device is declared by that device. -/
theorem linksWithin_of_mem_links {l : Link} (h : l ∈ inference.links s.devices)
    (hdevice : l.source.device = l.target.device) :
    l.reason = .declared ∧ s.LinksWithin l.source l.target := by
  obtain ⟨hmem, hne⟩ := mem_distinctPairs h
  rcases List.mem_append.mp hmem with hdeclared | hinferred
  · obtain ⟨d, hd, hlinks⟩ := List.mem_flatMap.mp hdeclared
    obtain ⟨a, ha, hl⟩ := List.mem_flatMap.mp hlinks
    rcases Adjacency.mem_links_iff.mp hl with rfl | ⟨hback, rfl⟩
    · exact ⟨rfl, hne, d, hd, a, ha, hdevice.symm, Or.inl ⟨rfl, rfl⟩⟩
    · exact ⟨rfl, hne, d, hd, a, ha, hdevice, Or.inr ⟨hback, rfl, rfl⟩⟩
  · exact absurd hdevice (Inference.device_ne_of_inferredLinks hinferred)

/-- Two zones of a device that it declares to be adjacent are linked. -/
theorem LinksWithin.exists_link (h : s.LinksWithin source target) (inference : Inference) :
    ∃ l ∈ inference.links s.devices, l.source = source ∧ l.target = target := by
  obtain ⟨hne, d, hd, a, ha, _, hends⟩ := h
  have hdeclared : ∀ {l : Link}, l ∈ a.links d.id →
      l.ends ∈ (s.devices.flatMap Device.declaredLinks).map Link.ends := fun hl =>
    List.mem_map_of_mem (List.mem_flatMap.mpr ⟨d, hd, List.mem_flatMap.mpr ⟨a, ha, hl⟩⟩)
  have hlinked : (source, target) ∈ (inference.links s.devices).map Link.ends := by
    refine Inference.mem_ends_links_iff.mpr ⟨hne, Or.inl ?_⟩
    rcases hends with ⟨rfl, rfl⟩ | ⟨hback, rfl, rfl⟩
    · exact hdeclared (Adjacency.mem_links_iff.mpr (Or.inl rfl))
    · exact hdeclared (Adjacency.mem_links_iff.mpr (Or.inr ⟨hback, rfl⟩))
  obtain ⟨l, hl, hpair⟩ := List.mem_map.mp hlinked
  exact ⟨l, hl, Prod.mk.inj hpair⟩

/-- In the graph of a resolved snapshot, zones that no adjacency of their device
links are joined by their rule set and by nothing else. -/
theorem governedBy_of_not_linksWithin (hresolve : s.resolve builtins = .ok resolved)
    (hbuild : Graph.build resolved inference = .ok g) {c : Catalog}
    (hdevices : List.Forall₂ (fun d (r : ResolvedDevice) => r.id = d.id ∧
      List.Forall₂ (fun rs resolved => ResolvedRuleSet.Lists resolved c d.id rs) d.ruleSets
        r.ruleSets) s.devices resolved.devices)
    (hdevice : source.device = target.device) (hunlinked : ¬s.LinksWithin source target) :
    g.GovernedBy s c source target := by
  obtain ⟨hfault, _, _, _, _, _, _, hresolved⟩ := resolve_eq_ok_iff.mp hresolve
  have hsame : resolved.snapshot = s := by rw [hresolved]
  have hruleSet : ∀ kind, g.Joins source target kind → ∃ resolved, kind = .filtered resolved ∧
      ∃ d rs, s.HasRuleSet d rs source target ∧ resolved.Lists c d.id rs := by
    intro kind hjoins
    cases (Graph.joins_iff_connects hbuild).mp hjoins with
    | @ruleSet r rs' hr hrs' =>
      obtain ⟨d, hd, hid, hlisted⟩ := exists_of_mem_right hdevices hr
      obtain ⟨rs, hrs, hlists⟩ := exists_of_mem_right hlisted hrs'
      rw [hid, hlists.id]
      exact ⟨rs', rfl, d, rs, ⟨hd, hrs, rfl, rfl⟩, hlists⟩
    | link hl =>
      rw [hsame] at hl
      exact absurd (linksWithin_of_mem_links hl hdevice).2 hunlinked
  refine ⟨hruleSet, ?_, ?_⟩
  · rintro i rfl e he f hf htarget hsecond
    have hfiltered : ∀ e' ∈ g.leaving i, g.zone e'.target = target → e'.isFiltered = true := by
      rintro e' he' rfl
      obtain ⟨rs, hkind, _⟩ := hruleSet e'.kind (Graph.joins_of_leaving he')
      simp [Edge.isFiltered, hkind]
    have hdirections := nodup_directions hresolve (valid_of_fault? hfault)
    have hdistinct := Graph.zone_injective hbuild (hsame ▸ hfault)
    apply Graph.eq_of_isFiltered_eq hbuild hdirections he hf
    · exact hdistinct (htarget.trans hsecond.symm)
    · rw [hfiltered e he htarget, hfiltered f hf hsecond]
  · rintro d rs ⟨hd, hrs, rfl, rfl⟩
    obtain ⟨r, hr, hid, hlisted⟩ := exists_of_mem_left hdevices hd
    obtain ⟨rs', hrs', hlists⟩ := exists_of_mem_left hlisted hrs
    have hconnects : resolved.Connects inference _ _ _ := .ruleSet hr hrs'
    rw [hid, hlists.id] at hconnects
    exact ⟨_, (Graph.joins_iff_connects hbuild).mpr hconnects⟩

/-- Links stay between devices but for what a device declares about itself. Under
every strategy, an edge that no rule set governs joins two zones of one device just
where that device declares them to be adjacent. All other pairs of zones of one
device are joined by the rule set for the pair, or not at all. -/
theorem edges_within_device (hresolve : s.resolve builtins = .ok resolved)
    (hbuild : Graph.build resolved inference = .ok g) :
    ∃ c, Catalog.ofBooks s.networkBooks s.serviceBooks builtins = .ok c ∧
      ∀ source target, source.device = target.device →
        (∀ reason, g.Joins source target (.transit reason) ↔
          reason = .declared ∧ s.LinksWithin source target) ∧
        (¬s.LinksWithin source target → g.GovernedBy s c source target) := by
  obtain ⟨_, _, _, _, _, _, _, hresolved⟩ := resolve_eq_ok_iff.mp hresolve
  have hsame : resolved.snapshot = s := by rw [hresolved]
  obtain ⟨c, hcatalog, hdevices⟩ := devices_of_resolve hresolve
  refine ⟨c, hcatalog, fun source target hdevice => ⟨fun reason => ?_, ?_⟩⟩
  · rw [Graph.joins_iff_connects hbuild]
    constructor
    · intro hconnects
      cases hconnects with
      | link hl => exact linksWithin_of_mem_links (hsame ▸ hl) hdevice
    · rintro ⟨rfl, hwithin⟩
      obtain ⟨l, hl, rfl, rfl⟩ := hwithin.exists_link inference
      rw [← (linksWithin_of_mem_links hl hdevice).1]
      exact .link (hsame ▸ hl)
  · exact governedBy_of_not_linksWithin hresolve hbuild hdevices hdevice

/-- A device that keeps a zone from another by a rule set and declares the two to be
adjacent. -/
def bypass : Snapshot where
  toolRunId := none
  devices := [⟨"fw", [], [⟨"in", [], none⟩, ⟨"dmz", [], none⟩, ⟨"out", [], none⟩],
    [⟨none, "in", "out", .deny, []⟩, ⟨none, "in", "dmz", .permit, []⟩], [],
    [⟨"in", "fw", "out", true⟩]⟩]
  networkBooks := []
  serviceBooks := []

private def shut : ResolvedRuleSet := ⟨⟨"fw", "in", "out", none⟩, .deny, []⟩

private def bypassGate : ResolvedDevice :=
  ⟨"fw", [shut, ⟨⟨"fw", "in", "dmz", none⟩, .permit, []⟩], []⟩

private def bypassResolved : ResolvedSnapshot := ⟨bypass, bypass.digest, .empty, [bypassGate]⟩

private theorem bypass_resolve : bypass.resolve false = .ok bypassResolved :=
  resolve_eq_ok_iff.mpr
    ⟨by decide, ⟨.empty, .empty⟩, .empty, [(bypassGate, .empty)], rfl, rfl, rfl, rfl⟩

private theorem bypass_build : ∃ g, Graph.build bypassResolved .explicitOnly = .ok g := ⟨_, rfl⟩

theorem bypass_within_device :
    ∃ resolved g c, bypass.resolve false = .ok resolved ∧
      Graph.build resolved .explicitOnly = .ok g ∧
      Catalog.ofBooks bypass.networkBooks bypass.serviceBooks false = .ok c ∧
      g.Joins ⟨"fw", "out"⟩ ⟨"fw", "in"⟩ (.transit .declared) ∧
      g.GovernedBy bypass c ⟨"fw", "in"⟩ ⟨"fw", "dmz"⟩ := by
  obtain ⟨g, hbuild⟩ := bypass_build
  obtain ⟨c, hcatalog, hwithin⟩ := edges_within_device bypass_resolve hbuild
  refine ⟨bypassResolved, g, c, bypass_resolve, hbuild, hcatalog, ?_, ?_⟩
  · exact ((hwithin ⟨"fw", "out"⟩ ⟨"fw", "in"⟩ rfl).1 .declared).mpr ⟨rfl, by decide⟩
  · exact (hwithin ⟨"fw", "in"⟩ ⟨"fw", "dmz"⟩ rfl).2 (by decide)

/-- The link leads past a rule set that lets nothing through, and back between zones
for which the device has no rule set. -/
theorem bypass_joined :
    ∃ resolved g, bypass.resolve false = .ok resolved ∧
      Graph.build resolved .explicitOnly = .ok g ∧
      (∃ rs, g.Joins ⟨"fw", "in"⟩ ⟨"fw", "out"⟩ (.filtered rs) ∧ rs.defaultAction = .deny ∧
        rs.rules = []) ∧
      g.Joins ⟨"fw", "in"⟩ ⟨"fw", "out"⟩ (.transit .declared) ∧
      g.Joins ⟨"fw", "out"⟩ ⟨"fw", "in"⟩ (.transit .declared) ∧
      ∀ d ∈ bypass.devices, ∀ rs ∈ d.ruleSets, ¬(rs.fromZone = "out" ∧ rs.toZone = "in") := by
  obtain ⟨g, hbuild⟩ := bypass_build
  have hgate : bypassGate ∈ bypassResolved.devices := List.mem_singleton_self bypassGate
  have hshut : shut ∈ bypassGate.ruleSets := List.mem_cons_self
  have hforth : ⟨⟨"fw", "in"⟩, ⟨"fw", "out"⟩, .declared⟩ ∈
      Inference.explicitOnly.links bypassResolved.snapshot.devices := by decide
  have hback : ⟨⟨"fw", "out"⟩, ⟨"fw", "in"⟩, .declared⟩ ∈
      Inference.explicitOnly.links bypassResolved.snapshot.devices := by decide
  refine ⟨bypassResolved, g, bypass_resolve, hbuild, ⟨shut, ?_, rfl, rfl⟩, ?_, ?_, by decide⟩
  · exact (Graph.joins_iff_connects hbuild).mpr (.ruleSet hgate hshut)
  · exact (Graph.joins_iff_connects hbuild).mpr (.link hforth)
  · exact (Graph.joins_iff_connects hbuild).mpr (.link hback)

end Snapshot

end Perimeter
