import Perimeter.Proofs.Book.Catalog
import Perimeter.Proofs.Book.Extension
import Perimeter.Proofs.Reachability.Certificate
import Perimeter.Proofs.Snapshot.Reordering

/-!
Vendor books and the snapshots that do without them. A snapshot that is loaded from its
own books alone is also loaded when vendor books join the catalog. They stay out of
everything that is resolved: devices, graph and answers are the same, and the tables
only gain the sets of the books that were added.
-/

namespace Perimeter

namespace Catalog.Extends

variable {c larger : Catalog}

theorem keeps (h : larger.Extends c) : c.Keeps larger :=
  ⟨fun _ _ _ => h.networks.standsFor, fun _ _ _ => h.services.standsFor⟩

theorem namesKnown (h : larger.Extends c) {d : Device} (hknown : d.NamesKnown c) :
    d.NamesKnown larger := by
  constructor
  · intro name hname
    obtain ⟨key, hlookup⟩ := Option.isSome_iff_exists.mp (hknown.networks name hname)
    exact Option.isSome_iff_exists.mpr ⟨key, h.networks.found name _ key hlookup⟩
  · intro name hname
    obtain ⟨key, hlookup⟩ := Option.isSome_iff_exists.mp (hknown.services name hname)
    exact Option.isSome_iff_exists.mpr ⟨key, h.services.found name _ key hlookup⟩

end Catalog.Extends

/-- From catalogs in which names stand for the same sets, a device is resolved alike. -/
theorem Catalog.Keeps.device_eq {c c' : Catalog} (h : c.Keeps c') {d : Device}
    {r r' : ResolvedDevice} (hr : r.Renders c d) (hr' : r'.Renders c' d) : r = r' := by
  have hruleSets : r.ruleSets = r'.ruleSets :=
    eq_of_forall₂ hr.ruleSets hr'.ruleSets fun _ _ _ hruleSet hruleSet' =>
      h.ruleSet_eq hruleSet hruleSet'
  have hzoneBooks : r.zoneBooks = r'.zoneBooks := h.zoneBooks_eq rfl rfl hr.zoneBooks hr'.zoneBooks
  cases r
  cases r'
  congr
  exact hr.id.trans hr'.id.symm

/-- The graph of a resolved snapshot does not depend on its tables of books. -/
theorem Graph.build_books (s : ResolvedSnapshot) (books : BookTables) (inference : Inference) :
    build { s with books := books } inference = build s inference := rfl

/-- The same sets under the keys of a table, and possibly more under others. -/
structure BookTables.Extends (larger t : BookTables) : Prop where
  networks : ∀ key set, t.networks.find? key = some set → larger.networks.find? key = some set
  services : ∀ key set, t.services.find? key = some set → larger.services.find? key = some set

namespace Snapshot

variable {s : Snapshot}

theorem BooksValid.builtins (h : s.BooksValid false) : s.BooksValid true := by
  obtain ⟨c, hcatalog, hclosed, hknown⟩ := h.exists_catalog
  obtain ⟨larger, hlarger, hextends⟩ := Catalog.exists_extends hcatalog
  refine ⟨h.networkKeys, h.serviceKeys, ?_, ?_⟩
  · intro c' hcatalog'
    cases hlarger.symm.trans hcatalog'
    exact hextends.closed hclosed
  · intro c' hcatalog' d hd
    cases hlarger.symm.trans hcatalog'
    exact hextends.namesKnown (hknown d hd)

/-- A snapshot that is resolved without vendor books is resolved with them, to the same
snapshot up to the sets that are added to its tables. -/
theorem exists_resolve_builtins {resolved : ResolvedSnapshot}
    (h : s.resolve false = .ok resolved) :
    ∃ books c larger, s.resolve true = .ok { resolved with books := books } ∧
      Catalog.ofBooks s.networkBooks s.serviceBooks false = .ok c ∧
      Catalog.ofBooks s.networkBooks s.serviceBooks true = .ok larger ∧
      larger.Extends c ∧ resolved.books.Lists c ∧ books.Lists larger ∧
      books.Extends resolved.books := by
  obtain ⟨hvalid, hbooks⟩ := booksValid_of_resolve h
  obtain ⟨resolved', h'⟩ := exists_resolve_iff.mpr ⟨hvalid, hbooks.builtins⟩
  obtain ⟨hsame, c, hcatalog, hdevices, hsound, hlists⟩ := renders_of_resolve h
  obtain ⟨hsame', larger, hlarger, hdevices', hsound', hlists'⟩ := renders_of_resolve h'
  obtain ⟨larger', hlarger', hextends⟩ := Catalog.exists_extends hcatalog
  cases hlarger.symm.trans hlarger'
  have hsnapshot : resolved'.snapshot = resolved.snapshot := hsame'.trans hsame.symm
  have hdevices : resolved'.devices = resolved.devices :=
    (eq_of_forall₂ hdevices hdevices' fun _ _ _ hr hr' => hextends.keeps.device_eq hr hr').symm
  have hdigest : resolved'.digest = resolved.digest := by
    obtain ⟨_, _, _, _, _, _, _, rfl⟩ := resolve_eq_ok_iff.mp h
    obtain ⟨_, _, _, _, _, _, _, rfl⟩ := resolve_eq_ok_iff.mp h'
    rfl
  have hresolved : resolved' = { resolved with books := resolved'.books } := by
    cases resolved'
    cases hsnapshot
    cases hdigest
    cases hdevices
    rfl
  refine ⟨resolved'.books, c, larger, hresolved ▸ h', hcatalog, hlarger, hextends, hlists, hlists',
    ?_, ?_⟩
  · intro key set hfind
    exact hextends.networks.find?_kept hsound.networks hsound'.networks hlists'.1 hlists.1 hfind
  · intro key set hfind
    exact hextends.services.find?_kept hsound.services hsound'.services hlists'.2 hlists.2 hfind

end Snapshot

namespace Engine

/-- An engine answers like another one, and has its books besides others. -/
structure Extends (larger e : Engine) : Prop where
  books : larger.resolved.books.Extends e.resolved.books
  resolved : larger.resolved = { e.resolved with books := larger.resolved.books }
  graph : larger.graph = e.graph
  query : ∀ q, larger.query q = e.query q

/-- Vendor books are a conservative extension. A snapshot that is loaded without them is
loaded with them. All books of the snapshot are in the catalog, every name that was found
stands for the same book and every book for the same set, and devices, graph and answers
are the same. -/
theorem load_builtins {s : Snapshot} {config : EngineConfig} {e : Engine}
    (hload : load s { config with builtinBooks := false } = .ok e) :
    ∃ larger c c', load s { config with builtinBooks := true } = .ok larger ∧
      Catalog.ofBooks s.networkBooks s.serviceBooks false = .ok c ∧
      Catalog.ofBooks s.networkBooks s.serviceBooks true = .ok c' ∧
      c'.Extends c ∧ (∀ b ∈ s.networkBooks, c'.networks.find? b.key = some b) ∧
      (∀ b ∈ s.serviceBooks, c'.services.find? b.key = some b) ∧
      e.resolved.books.Lists c ∧ larger.resolved.books.Lists c' ∧ larger.Extends e := by
  obtain ⟨hresolve, hbuild⟩ := load_eq_ok_iff.mp hload
  obtain ⟨books, c, c', hresolve', hcatalog, hcatalog', hextends, hlists, hlists', hbooks⟩ :=
    Snapshot.exists_resolve_builtins hresolve
  obtain ⟨hnetworks, hservices⟩ := Catalog.books_of_ofBooks hcatalog
  refine ⟨⟨{ e.resolved with books := books }, e.graph⟩, c, c', load_eq_ok_iff.mpr ⟨hresolve', ?_⟩,
    hcatalog, hcatalog', hextends, ?_, ?_, hlists, hlists', hbooks, rfl, rfl, fun _ => rfl⟩
  · rw [Graph.build_books]
    exact hbuild
  · intro b hb
    exact hextends.networks.kept b.key b (Shelf.find?_eq_some_iff.mpr ⟨hnetworks ▸ hb, rfl⟩)
  · intro b hb
    exact hextends.services.kept b.key b (Shelf.find?_eq_some_iff.mpr ⟨hservices ▸ hb, rfl⟩)

private def homegrownDevice : Device where
  id := "core"
  interfaces := []
  zones := [⟨"office", [], some "any"⟩, ⟨"lab", [], some "any4"⟩]
  ruleSets := [⟨none, "office", "lab", .deny,
    [⟨1, .permit, none, some "any", none, none, some "any", none, true, none⟩]⟩]
  routes := []
  adjacencies := []

private def homegrownHost (value : Fin 64) : Entry Network :=
  .literal ⟨⟨.v4, value, le_trans (Nat.le_of_lt value.isLt) (by decide)⟩, 32, Nat.le_refl _⟩

/-- A device whose books have names that vendors use as well, one in its own scope and
the others global. -/
def homegrown : Snapshot where
  toolRunId := none
  devices := [homegrownDevice]
  networkBooks := [⟨"any", .device "core", [.book "any4", homegrownHost 7], []⟩,
    ⟨"any4", .global, [homegrownHost 9], []⟩]
  serviceBooks := [⟨"any", .global, [.literal ⟨some .udp, ⟨53, 53⟩⟩], []⟩]

private def homegrownCatalog : Catalog :=
  ⟨.ofDistinct homegrown.networkBooks (by decide), .ofDistinct homegrown.serviceBooks (by decide)⟩

private def homegrownConfig : EngineConfig := ⟨.nextHop, true, true⟩

private theorem homegrown_loads :
    ∃ e, load homegrown { homegrownConfig with builtinBooks := false } = .ok e := by
  have hresolves : ∃ resolved, homegrown.resolve false = .ok resolved :=
    Snapshot.exists_resolve (c := homegrownCatalog) (by decide) rfl (by decide +kernel)
  obtain ⟨resolved, hresolved⟩ := hresolves
  obtain ⟨hvalid, hbooks⟩ := Snapshot.booksValid_of_resolve hresolved
  have hgraph : homegrown.GraphValid := by
    refine ⟨by decide, ?_⟩
    unfold Snapshot.Declares
    decide
  exact Snapshot.WellFormed.exists_load ⟨hvalid, hbooks, hgraph⟩

theorem homegrown_kept :
    ∃ e larger c c', load homegrown { homegrownConfig with builtinBooks := false } = .ok e ∧
      load homegrown { homegrownConfig with builtinBooks := true } = .ok larger ∧
      Catalog.ofBooks homegrown.networkBooks homegrown.serviceBooks true = .ok c' ∧
      c'.Extends c ∧ c'.networks.find? ⟨.global, "any4"⟩ = homegrown.networkBooks[1]? ∧
      larger.Extends e := by
  obtain ⟨e, hload⟩ := homegrown_loads
  obtain ⟨larger, c, c', hlarger, _, hcatalog', hextends, hnetworks, _, _, _, hsame⟩ :=
    load_builtins hload
  exact ⟨e, larger, c, c', hload, hlarger, hcatalog', hextends,
    hnetworks _ (List.mem_cons_of_mem _ List.mem_cons_self), hsame⟩

end Engine

end Perimeter
