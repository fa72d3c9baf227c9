import Perimeter.Proofs.Snapshot.Order
import Perimeter.Proofs.Snapshot.Rearrangement

/-!
Snapshots in another order. The order in which a snapshot lists its books, the
items of a book, and the rule sets and adjacencies of a device carries no meaning.
Where devices and zones stay in their order, resolution gives the snapshot the same
books and the same devices, up to the order of rule sets.
-/

namespace Perimeter

/-- The same device with its rule sets and its adjacencies in another order. -/
structure Device.Reordered (d d' : Device) : Prop where
  id : d.id = d'.id
  interfaces : d.interfaces = d'.interfaces
  zones : d.zones = d'.zones
  routes : d.routes = d'.routes
  ruleSets : d.ruleSets.Perm d'.ruleSets
  adjacencies : d.adjacencies.Perm d'.adjacencies

/-- The same snapshot in another order: of books and their items, and of the rule
sets and the adjacencies of each device. Devices, zones, interfaces, routes and
the rules of a rule set stay in their order. -/
structure Snapshot.Reordered (s s' : Snapshot) : Prop where
  toolRunId : s.toolRunId = s'.toolRunId
  devices : List.Forall₂ Device.Reordered s.devices s'.devices
  networkBooks : Book.ListReordered s.networkBooks s'.networkBooks
  serviceBooks : Book.ListReordered s.serviceBooks s'.serviceBooks

theorem Device.Reordered.rearranged {d d' : Device} (h : d.Reordered d') : d.Rearranged d' :=
  ⟨h.id, h.interfaces, h.routes, .of_eq h.zones, h.ruleSets, h.adjacencies⟩

/-- The same resolved device with its rule sets in another order. -/
structure ResolvedDevice.Reordered (r r' : ResolvedDevice) : Prop where
  id : r.id = r'.id
  ruleSets : r.ruleSets.Perm r'.ruleSets
  zoneBooks : r.zoneBooks = r'.zoneBooks

/-- Reordered devices are resolved to reordered devices. -/
theorem Device.Reordered.resolved {d d' : Device} (h : d.Reordered d') {c c' : Catalog}
    (hc : c.Reordered c') {r r' : ResolvedDevice} (hr : r.Renders c d) (hr' : r'.Renders c' d') :
    r.Reordered r' := by
  refine ⟨?_, ?_, hc.keeps.zoneBooks_eq h.id h.zones hr.zoneBooks hr'.zoneBooks⟩
  · rw [hr.id, hr'.id, h.id]
  · obtain ⟨between, hall, hperm⟩ := List.perm_comp_forall₂ h.ruleSets.symm hr.ruleSets
    have hsame : between = r'.ruleSets := by
      refine eq_of_forall₂ hall hr'.ruleSets fun rs r r' hr hr' => ?_
      rw [← h.id] at hr'
      exact hc.keeps.ruleSet_eq hr hr'
    exact hsame ▸ hperm.symm

namespace Snapshot.Reordered

variable {s s' : Snapshot}

theorem rearranged (h : s.Reordered s') : s.Rearranged s' :=
  ⟨h.toolRunId, ⟨s.devices, .refl _, h.devices.imp fun _ _ hd => hd.rearranged⟩,
    h.networkBooks, h.serviceBooks⟩

theorem valid (h : s.Reordered s') (hvalid : s.Valid) : s'.Valid := h.rearranged.valid hvalid

/-- A snapshot that differs from one that is loaded in its order only is loaded. -/
theorem exists_load (h : s.Reordered s') {config : EngineConfig} {e : Engine}
    (hload : Engine.load s config = .ok e) : ∃ e', Engine.load s' config = .ok e' :=
  h.rearranged.exists_load hload

end Snapshot.Reordered

namespace Snapshot

variable {s s' : Snapshot} {builtins : Bool} {resolved resolved' : ResolvedSnapshot}

/-- In a snapshot that is resolved, every device is made of the sets that it
names, and the tables hold what each book of the catalog expands to. -/
theorem renders_of_resolve (h : s.resolve builtins = .ok resolved) :
    resolved.snapshot = s ∧
      ∃ c, Catalog.ofBooks s.networkBooks s.serviceBooks builtins = .ok c ∧
        List.Forall₂ (fun d (r : ResolvedDevice) => r.Renders c d) s.devices resolved.devices ∧
        c.Sound resolved.books ∧ resolved.books.Lists c := by
  obtain ⟨hfault, c, globals, devices, hcatalog, hglobals, hdevices, rfl⟩ :=
    resolve_eq_ok_iff.mp h
  have hsound := Catalog.sound_resolveGlobals hglobals
  have hfound : List.Forall₂ (fun d (p : ResolvedDevice × BookTables) =>
      p.1.Renders c d ∧ c.Sound p.2) s.devices devices :=
    (mapM_eq_ok_iff.mp hdevices).imp fun d _ hdevice =>
      Catalog.Finds.fromEmpty (Catalog.finds_renderedDevice hsound d) hdevice
  refine ⟨rfl, c, hcatalog, ?_, ?_, ?_⟩
  · exact List.forall₂_map_right_iff.mpr (hfound.imp fun _ _ hdevice => hdevice.1)
  · apply hsound.foldl_merge
    intro t ht
    obtain ⟨p, hp, rfl⟩ := List.mem_map.mp ht
    obtain ⟨_, _, hdevice⟩ := exists_of_mem_right hfound hp
    exact hdevice.2
  · have hown : (devices.map (·.2)).Perm (s.devices.map (c.privateTables globals)) :=
      .of_eq (tables_of_mapM hdevices)
    exact (foldl_merge_privateTables (valid_of_fault? hfault) hcatalog hglobals
      (mapM_ok_iff.mp ⟨devices, hdevices⟩) hown hown).1

/-- Reordered snapshots are resolved to the same books and to the same devices,
up to the order of rule sets. -/
theorem Reordered.of_resolve (h : s.Reordered s') (hr : s.resolve builtins = .ok resolved)
    (hr' : s'.resolve builtins = .ok resolved') :
    List.Forall₂ ResolvedDevice.Reordered resolved.devices resolved'.devices ∧
      resolved.books.Same resolved'.books := by
  obtain ⟨_, c, hcatalog, hdevices, hsound, hlists⟩ := renders_of_resolve hr
  obtain ⟨_, c', hcatalog', hdevices', hsound', hlists'⟩ := renders_of_resolve hr'
  have hc := Catalog.reordered_of_ofBooks h.networkBooks h.serviceBooks hcatalog hcatalog'
  refine ⟨?_, ?_, ?_⟩
  · exact forall₂_of_forall₂ h.devices hdevices hdevices' fun _ _ _ _ hd hr hr' =>
      hd.resolved hc hr hr'
  · exact hc.networks.find?_eq hsound.networks hsound'.networks hlists.1 hlists'.1
  · exact hc.services.find?_eq hsound.services hsound'.services hlists.2 hlists'.2

end Snapshot

end Perimeter
