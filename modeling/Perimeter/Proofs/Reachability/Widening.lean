import Perimeter.Proofs.Reachability.Counterpart
import Perimeter.Proofs.Snapshot.Loading
import Perimeter.Proofs.Topology.Linked

/-!
Strategies that find more links. The links a snapshot declares come first under every
strategy, and those that are inferred behind them only ever name zones that are there.
So all strategies build a graph or none does, each with all edges that the declared
links make for, and what gets through over those gets through under all of them.
-/

namespace Perimeter

/-- The arcs of links, unless one of them names a device or a zone that is not there. -/
def ResolvedSnapshot.linkArcs (s : ResolvedSnapshot) (links : List Link) :
    Except GraphError (List (Arc s.nodes.length)) := do
  if let some device := strangeDevice? links s.snapshot.devices then
    throw (.unknownDevice device)
  links.mapM fun l => arcBetween s.nodes l.source l.target (.transit l.reason)

/-- The arcs of rule sets and, behind them, those of links. -/
def ResolvedSnapshot.arcs (s : ResolvedSnapshot) (links : List Link) :
    Except GraphError (List (Arc s.nodes.length)) := do
  let filtered ← s.devices.mapM (·.arcs s.nodes)
  let transit ← s.linkArcs links
  return filtered.flatten ++ transit

theorem Graph.build_eq_map (s : ResolvedSnapshot) (inference : Inference) :
    build s inference = (s.arcs (inference.links s.snapshot.devices)).map (ofArcs s.nodes) := by
  unfold build ResolvedSnapshot.arcs ResolvedSnapshot.linkArcs
  dsimp only
  cases s.devices.mapM (·.arcs s.nodes) with
  | error e => rfl
  | ok filtered =>
    cases strangeDevice? (inference.links s.snapshot.devices) s.snapshot.devices with
    | some device => rfl
    | none =>
      cases (inference.links s.snapshot.devices).mapM fun l =>
        arcBetween s.nodes l.source l.target (.transit l.reason) with
      | error e => rfl
      | ok transit => rfl

/-- Devices that are there are passed over in the search for one that is not. -/
theorem strangeDevice?_append {links more : List Link} {devices : List Device}
    (h : ∀ l ∈ more, l.source.device ∈ devices.map (·.id) ∧ l.target.device ∈ devices.map (·.id)) :
    strangeDevice? (links ++ more) devices = strangeDevice? links devices := by
  have hmore : strangeDevice? more devices = none := by
    cases hstrange : strangeDevice? more devices with
    | none => rfl
    | some device =>
      obtain ⟨hunknown, l, hl, rfl | rfl⟩ := strangeDevice?_eq_some hstrange
      · exact absurd (h l hl).1 hunknown
      · exact absurd (h l hl).2 hunknown
  unfold strangeDevice? at hmore ⊢
  rw [List.flatMap_append, List.find?_append, hmore, Option.or_none]

namespace ResolvedSnapshot

variable {s : ResolvedSnapshot}

theorem exists_arcBetween {source target : ZoneRef} (hsource : source ∈ s.nodes.map (·.zone))
    (htarget : target ∈ s.nodes.map (·.zone)) (kind : EdgeKind) :
    ∃ a, arcBetween s.nodes source target kind = .ok a := by
  cases harc : arcBetween s.nodes source target kind with
  | ok a => exact ⟨a, rfl⟩
  | error e =>
    obtain ⟨zone, rfl | rfl, hmissing, _⟩ := missing_of_arcBetween harc
    · exact absurd hsource hmissing
    · exact absurd htarget hmissing

/-- Links between zones that are there add their arcs behind those of the others, and
make no difference to whether there are any. -/
theorem arcs_append (hlength : s.snapshot.devices.length = s.devices.length) (links : List Link)
    {more : List Link}
    (hmore : ∀ l ∈ more, s.snapshot.Declares l.source ∧ s.snapshot.Declares l.target) :
    ∃ extra, s.arcs (links ++ more) = (s.arcs links).map (· ++ extra) := by
  have hfound : ∀ l ∈ more,
      ∃ a, arcBetween s.nodes l.source l.target (.transit l.reason) = .ok a := fun l hl =>
    exists_arcBetween ((mem_nodes_iff hlength).mpr (hmore l hl).1)
      ((mem_nodes_iff hlength).mpr (hmore l hl).2) _
  obtain ⟨extra, hextra⟩ := mapM_ok_iff.mpr hfound
  have hdevices : ∀ l ∈ more, l.source.device ∈ s.snapshot.devices.map (·.id) ∧
      l.target.device ∈ s.snapshot.devices.map (·.id) := fun l hl =>
    ⟨(hmore l hl).1.mem_devices, (hmore l hl).2.mem_devices⟩
  refine ⟨extra, ?_⟩
  unfold arcs linkArcs
  rw [strangeDevice?_append hdevices, List.mapM_append, hextra]
  cases s.devices.mapM (·.arcs s.nodes) with
  | error e => rfl
  | ok filtered =>
    cases strangeDevice? links s.snapshot.devices with
    | some device => rfl
    | none =>
      cases links.mapM fun l => arcBetween s.nodes l.source l.target (.transit l.reason) with
      | error e => rfl
      | ok transit => exact congrArg Except.ok (List.append_assoc _ _ _).symm

end ResolvedSnapshot

namespace Graph

/-- A graph has the nodes and the edges of another one, and more edges perhaps. Every
question that is allowed in that one is allowed in it, and where it has no path, that
one has none. -/
structure Widens (g' g : Graph) : Prop where
  size : g.size = g'.size
  nodes : g.nodes.toList = g'.nodes.toList
  edges : ∀ (i : Fin g.size), ∀ e ∈ g.leaving i, ∃ e' ∈ g'.leaving (i.cast size),
    e'.target = e.target.cast size ∧ e'.kind = e.kind
  allowed : ∀ q digest v, g.query q digest = .ok v → v.allowed = true →
    ∃ v', g'.query q digest = .ok v' ∧ v'.allowed = true
  noPath : ∀ q digest v', g'.query q digest = .ok v' → v'.reason = .noPath →
    ∃ v, g.query q digest = .ok v ∧ v.reason = .noPath

theorem widens_ofArcs {nodes : List Node} {arcs extra : List (Arc nodes.length)}
    (hdistinct : Function.Injective (ofArcs nodes (arcs ++ extra)).zone) :
    (ofArcs nodes (arcs ++ extra)).Widens (ofArcs nodes arcs) := by
  have hwithin : (ofArcs nodes arcs).Within (ofArcs nodes (arcs ++ extra)) := by
    refine ⟨.refl _, hdistinct, ?_⟩
    intro source target kind hjoins
    obtain ⟨a, ha, hzones, hkind⟩ := joins_ofArcs_iff.mp hjoins
    exact ⟨kind, .refl kind, joins_ofArcs_iff.mpr ⟨a, List.mem_append_left _ ha, hzones, hkind⟩⟩
  refine ⟨rfl, rfl, ?_, ?_, ?_⟩
  · intro i e he
    obtain ⟨a, ha, hsource, hedge⟩ := mem_leaving_ofArcs.mp he
    exact ⟨e, mem_leaving_ofArcs.mpr ⟨a, List.mem_append_left _ ha, hsource, hedge⟩, rfl, rfl⟩
  · intro q digest v hquery hallowed
    exact hwithin.query_allowed hquery hallowed
  · intro q digest v' hquery hnone
    exact hwithin.query_noPath hquery hnone

end Graph

namespace Snapshot

variable {s : Snapshot} {builtins : Bool} {resolved : ResolvedSnapshot}

/-- Inference only adds to a graph. From a resolved snapshot either no strategy builds a
graph, all for one reason, or all of them build one. Under each of them the graph has
the nodes of that of the declared links alone, all its edges with their reasons, and all
that can be reached in it. -/
theorem build_widens (hresolve : s.resolve builtins = .ok resolved) :
    (∃ error, ∀ inference, Graph.build resolved inference = .error error) ∨
      ∃ built : Inference → Graph,
        (∀ inference, Graph.build resolved inference = .ok (built inference)) ∧
          ∀ inference, (built inference).Widens (built .explicitOnly) := by
  obtain ⟨c, _, hdevices⟩ := devices_of_resolve hresolve
  have hsame := (underlies_of_resolve hresolve).same
  have hvalid : resolved.snapshot.fault? = none := hsame ▸ (resolve_eq_ok_iff.mp hresolve).1
  have hlength : resolved.snapshot.devices.length = resolved.devices.length :=
    hsame ▸ hdevices.length_eq
  have hextra : ∀ inference, ∃ extra, Graph.build resolved inference =
      (resolved.arcs (Inference.explicitOnly.links resolved.snapshot.devices)).map fun arcs =>
        .ofArcs resolved.nodes (arcs ++ extra) := by
    intro inference
    obtain ⟨more, hlinks, hinferred⟩ := inference.links_eq_append resolved.snapshot.devices
    obtain ⟨extra, harcs⟩ := ResolvedSnapshot.arcs_append hlength
      (Inference.explicitOnly.links resolved.snapshot.devices) fun l hl =>
        declares_of_inferredLinks (hinferred l hl)
    refine ⟨extra, ?_⟩
    rw [Graph.build_eq_map, hlinks, harcs]
    cases resolved.arcs (Inference.explicitOnly.links resolved.snapshot.devices) <;> rfl
  choose extra hbuild using hextra
  have hexplicit := Graph.build_eq_map resolved .explicitOnly
  cases harcs : resolved.arcs (Inference.explicitOnly.links resolved.snapshot.devices) with
  | error e =>
    refine Or.inl ⟨e, fun inference => ?_⟩
    rw [hbuild, harcs]
    rfl
  | ok arcs =>
    simp only [harcs, Except.map] at hbuild hexplicit
    refine Or.inr ⟨fun inference => .ofArcs resolved.nodes (arcs ++ extra inference), hbuild, ?_⟩
    intro inference
    have hsmall := Except.ok.inj ((hbuild .explicitOnly).symm.trans hexplicit)
    have hwidens := Graph.widens_ofArcs (Graph.zone_injective (hbuild inference) hvalid)
    rw [← hsmall] at hwidens
    exact hwidens

/-- Two devices on one segment, the first of which declares a link to the second. -/
def tandem : Snapshot where
  toolRunId := none
  devices := [⟨"west", [⟨"eth0", [⟨⟨.v4, 172818433, by decide⟩, 23, by decide⟩]⟩],
      [⟨"lan", ["eth0"], none⟩], [], [], [⟨"lan", "east", "lan", false⟩]⟩,
    ⟨"east", [⟨"eth0", [⟨⟨.v4, 172818434, by decide⟩, 23, by decide⟩]⟩],
      [⟨"lan", ["eth0"], none⟩], [], [], []⟩]
  networkBooks := []
  serviceBooks := []

private def tandemDevices : List ResolvedDevice := [⟨"west", [], []⟩, ⟨"east", [], []⟩]

private def tandemResolved : ResolvedSnapshot := ⟨tandem, tandem.digest, .empty, tandemDevices⟩

private theorem tandem_resolve : tandem.resolve false = .ok tandemResolved :=
  resolve_eq_ok_iff.mpr ⟨by decide, ⟨.empty, .empty⟩, .empty, tandemDevices.map (·, .empty),
    rfl, rfl, rfl, rfl⟩

theorem tandem_widens :
    tandem.resolve false = .ok tandemResolved ∧ ∃ built : Inference → Graph,
      (∀ inference, Graph.build tandemResolved inference = .ok (built inference)) ∧
        ∀ inference, (built inference).Widens (built .explicitOnly) := by
  refine ⟨tandem_resolve, ?_⟩
  rcases build_widens tandem_resolve with ⟨error, hnone⟩ | hbuilt
  · have hbuild : ∃ g, Graph.build tandemResolved .explicitOnly = .ok g := ⟨_, rfl⟩
    obtain ⟨g, hbuild⟩ := hbuild
    cases hbuild.symm.trans (hnone .explicitOnly)
  · exact hbuilt

end Snapshot

end Perimeter
