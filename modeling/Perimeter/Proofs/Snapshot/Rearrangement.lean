import Perimeter.Proofs.Snapshot.Loading
import Perimeter.Proofs.Snapshot.Rendering

/-!
Snapshots listed in another order. Whether a snapshot is well-formed does not depend
on the order of its devices and its books, of the items of a book, or of the zones, the
rule sets and the adjacencies of a device. Nor does it matter for the address book of a
zone where in the device the zone is listed.
-/

namespace Perimeter

/-- What is listed in another order and related item by item is so the other way. -/
theorem exists_perm_symm {α : Type} {R R' : α → α → Prop} {xs ys : List α}
    (h : ∃ between, xs.Perm between ∧ List.Forall₂ R between ys) (hR : ∀ x y, R x y → R' y x) :
    ∃ between, ys.Perm between ∧ List.Forall₂ R' between xs := by
  obtain ⟨between, hperm, hall⟩ := h
  obtain ⟨between', hall', hperm'⟩ := List.perm_comp_forall₂ hperm hall
  exact ⟨between', hperm'.symm, hall'.flip.imp fun y x hxy => hR x y hxy⟩

theorem Book.ListReordered.symm {Literal : Type} {books books' : List (Book Literal)}
    (h : ListReordered books books') : ListReordered books' books :=
  exists_perm_symm h fun _ _ hbook => hbook.symm

/-- The same device with its zones, its rule sets and its adjacencies in another
order. -/
structure Device.Rearranged (d d' : Device) : Prop where
  id : d.id = d'.id
  interfaces : d.interfaces = d'.interfaces
  routes : d.routes = d'.routes
  zones : d.zones.Perm d'.zones
  ruleSets : d.ruleSets.Perm d'.ruleSets
  adjacencies : d.adjacencies.Perm d'.adjacencies

/-- The same snapshot in another order: of devices, of what is listed for them but for
interfaces and routes, and of books and their items. The rules of a rule set stay in
their order. -/
structure Snapshot.Rearranged (s s' : Snapshot) : Prop where
  toolRunId : s.toolRunId = s'.toolRunId
  devices : ∃ between, s.devices.Perm between ∧
    List.Forall₂ Device.Rearranged between s'.devices
  networkBooks : Book.ListReordered s.networkBooks s'.networkBooks
  serviceBooks : Book.ListReordered s.serviceBooks s'.serviceBooks

namespace Device.Rearranged

variable {d d' : Device}

theorem symm (h : d.Rearranged d') : d'.Rearranged d :=
  ⟨h.id.symm, h.interfaces.symm, h.routes.symm, h.zones.symm, h.ruleSets.symm,
    h.adjacencies.symm⟩

theorem mem_zones (h : d.Rearranged d') {zone : String} :
    zone ∈ d.zones.map Zone.name ↔ zone ∈ d'.zones.map Zone.name :=
  (h.zones.map Zone.name).mem_iff

theorem zoneAddresses_eq (h : d.Rearranged d') : d.zoneAddresses = d'.zoneAddresses := by
  unfold zoneAddresses interface?
  rw [h.interfaces]

theorem zonedAddresses_perm (h : d.Rearranged d') : d.zonedAddresses.Perm d'.zonedAddresses := by
  unfold zonedAddresses
  rw [h.id, h.zoneAddresses_eq]
  exact h.zones.flatMap_right _

theorem declaredLinks_perm (h : d.Rearranged d') : d.declaredLinks.Perm d'.declaredLinks := by
  unfold declaredLinks
  rw [h.id]
  exact h.adjacencies.flatMap_right _

theorem valid (h : d.Rearranged d') (hvalid : d.Valid) : d'.Valid := by
  refine ⟨?_, ?_, ?_⟩
  · exact (h.zones.map Zone.name).nodup_iff.mp hvalid.zones
  · exact (h.ruleSets.map RuleSet.direction).nodup_iff.mp hvalid.directions
  · intro rs hrs
    exact hvalid.ruleSets rs (h.ruleSets.mem_iff.mpr hrs)

theorem namesNetwork (h : d.Rearranged d') {name : String} (hname : d'.NamesNetwork name) :
    d.NamesNetwork name := by
  rcases hname with ⟨rs, hrs, hrule⟩ | ⟨z, hz, hbook⟩
  · exact Or.inl ⟨rs, h.ruleSets.mem_iff.mpr hrs, hrule⟩
  · exact Or.inr ⟨z, h.zones.mem_iff.mpr hz, hbook⟩

theorem namesService (h : d.Rearranged d') {name : String} (hname : d'.NamesService name) :
    d.NamesService name := by
  obtain ⟨rs, hrs, hrule⟩ := hname
  exact ⟨rs, h.ruleSets.mem_iff.mpr hrs, hrule⟩

/-- What a device names is found in a reordered catalog as well. -/
theorem namesKnown (h : d.Rearranged d') {c c' : Catalog} (hc : c.Reordered c')
    (hknown : d.NamesKnown c) : d'.NamesKnown c' := by
  constructor
  · intro name hname
    rw [← hc.networks.lookup?_eq, ← h.id]
    exact hknown.networks name (h.namesNetwork hname)
  · intro name hname
    rw [← hc.services.lookup?_eq, ← h.id]
    exact hknown.services name (h.namesService hname)

end Device.Rearranged

namespace Snapshot.Rearranged

variable {s s' : Snapshot}

theorem symm (h : s.Rearranged s') : s'.Rearranged s :=
  ⟨h.toolRunId.symm, exists_perm_symm h.devices fun _ _ hd => hd.symm, h.networkBooks.symm,
    h.serviceBooks.symm⟩

/-- Every device has its counterpart. -/
theorem exists_device (h : s.Rearranged s') {d : Device} (hd : d ∈ s.devices) :
    ∃ d' ∈ s'.devices, d.Rearranged d' := by
  obtain ⟨between, hperm, hall⟩ := h.devices
  exact exists_of_mem_left hall (hperm.mem_iff.mp hd)

theorem ids_perm (h : s.Rearranged s') : (s.devices.map (·.id)).Perm (s'.devices.map (·.id)) := by
  obtain ⟨between, hperm, hall⟩ := h.devices
  rw [← map_eq_map_of_forall₂ hall fun _ _ hd => hd.id]
  exact hperm.map _

theorem hasScope (h : s.Rearranged s') {scope : Scope} (hscope : s.HasScope scope) :
    s'.HasScope scope := by
  rcases hscope with hglobal | ⟨d, hd, rfl⟩
  · exact Or.inl hglobal
  · obtain ⟨d', hd', hsame⟩ := h.exists_device hd
    exact Or.inr ⟨d', hd', by rw [hsame.id]⟩

theorem declares (h : s.Rearranged s') {zone : ZoneRef} (hzone : s.Declares zone) :
    s'.Declares zone := by
  obtain ⟨d, hd, hid, hname⟩ := hzone
  obtain ⟨d', hd', hsame⟩ := h.exists_device hd
  rw [hsame.id] at hid
  exact ⟨d', hd', hid, hsame.mem_zones.mp hname⟩

/-- Reordered books keep their scopes. -/
theorem scopes_of_books (h : s.Rearranged s') {Literal : Type} {books books' : List (Book Literal)}
    (hbooks : Book.ListReordered books books') (hscopes : ∀ b ∈ books, s.HasScope b.scope) :
    ∀ b ∈ books', s'.HasScope b.scope := by
  intro b' hb'
  obtain ⟨b, hb, hsame⟩ := hbooks.exists_of_mem hb'
  have hscope : b.scope = b'.scope := congrArg BookKey.scope hsame.key
  exact hscope ▸ h.hasScope (hscopes b hb)

theorem valid (h : s.Rearranged s') (hvalid : s.Valid) : s'.Valid := by
  refine ⟨h.ids_perm.nodup_iff.mp hvalid.distinct, ?_,
    h.scopes_of_books h.networkBooks hvalid.networkScopes,
    h.scopes_of_books h.serviceBooks hvalid.serviceScopes, ?_⟩
  · intro d' hd'
    obtain ⟨d, hd, hsame⟩ := h.symm.exists_device hd'
    exact hsame.symm.valid (hvalid.devices d hd)
  · intro b' hb' e he
    obtain ⟨b, hb, hsame⟩ := h.serviceBooks.exists_of_mem hb'
    exact hvalid.ports b hb e (hsame.mem_items.mpr he)

theorem booksValid (h : s.Rearranged s') {builtins : Bool} (hvalid : s.BooksValid builtins) :
    s'.BooksValid builtins := by
  obtain ⟨c, hcatalog, hclosed, hknown⟩ := hvalid.exists_catalog
  refine ⟨h.networkBooks.keys_perm.nodup_iff.mp hvalid.networkKeys,
    h.serviceBooks.keys_perm.nodup_iff.mp hvalid.serviceKeys, ?_, ?_⟩
  · intro c' hcatalog'
    exact (Catalog.reordered_of_ofBooks h.networkBooks h.serviceBooks hcatalog hcatalog').closed
      hclosed
  · intro c' hcatalog' d' hd'
    obtain ⟨d, hd, hsame⟩ := h.symm.exists_device hd'
    have hc := Catalog.reordered_of_ofBooks h.networkBooks h.serviceBooks hcatalog hcatalog'
    exact hsame.symm.namesKnown hc (hknown d hd)

theorem graphValid (h : s.Rearranged s') (hvalid : s.GraphValid) : s'.GraphValid := by
  constructor
  · intro d' hd' rs hrs
    obtain ⟨d, hd, hsame⟩ := h.symm.exists_device hd'
    rw [hsame.mem_zones, hsame.mem_zones]
    exact hvalid.ruleSets d hd rs (hsame.ruleSets.mem_iff.mp hrs)
  · intro d' hd' a ha hne
    obtain ⟨d, hd, hsame⟩ := h.symm.exists_device hd'
    rw [hsame.id] at hne ⊢
    obtain ⟨hhere, hpeer⟩ := hvalid.adjacencies d hd a (hsame.adjacencies.mem_iff.mp ha) hne
    exact ⟨h.declares hhere, h.declares hpeer⟩

theorem wellFormed (h : s.Rearranged s') {builtins : Bool} (hformed : s.WellFormed builtins) :
    s'.WellFormed builtins :=
  ⟨h.valid hformed.structured, h.booksValid hformed.books, h.graphValid hformed.graph⟩

/-- A snapshot that differs from one that is loaded in its order only is loaded. -/
theorem exists_load (h : s.Rearranged s') {config : EngineConfig} {e : Engine}
    (hload : Engine.load s config = .ok e) : ∃ e', Engine.load s' config = .ok e' :=
  (h.wellFormed (wellFormed_of_load hload)).exists_load

end Snapshot.Rearranged

end Perimeter
