import Perimeter.Proofs.Book.Reordering

/-!
Shelves with more books. Vendor books are global and name no other book, and they
are added only where a key is free. So every book stays under its key, every name
that is found is found as before in each scope, and books expand to the same sets.
The books that were added bring no new reference with them, and a shelf on which
every name is found without a cycle stays one.
-/

namespace Perimeter

/-- A global book that names no other. -/
structure Book.Vendor {Literal : Type} (b : Book Literal) : Prop where
  scope : b.scope = .global
  literal : ∀ name, .book name ∉ b.entries ∧ .book name ∉ b.exclusions

namespace Shelf

variable {Literal Set : Type} {shelf larger : Shelf Literal} {extra : List (Book Literal)}

/-- A shelf has the books of another one, and besides them only extra ones, whose keys
are free there. No name that is found there stands for another book here. -/
structure Extends (larger shelf : Shelf Literal) (extra : List (Book Literal)) : Prop where
  kept : ∀ key book, shelf.find? key = some book → larger.find? key = some book
  found : ∀ name scope key, shelf.lookup? name scope = some key →
    larger.lookup? name scope = some key
  added : ∀ key book, larger.find? key = some book →
    shelf.find? key = some book ∨ (shelf.find? key = none ∧ book ∈ extra)

theorem has_addMissing_iff {key : BookKey} :
    (shelf.addMissing extra).has key = true ↔
      shelf.has key = true ∨ key ∈ extra.map Book.key := by
  rw [has_eq_isSome_find?, has_eq_isSome_find?, find?_addMissing, Option.isSome_or, Bool.or_eq_true]
  simp

/-- Vendor books leave names as they are. None can come between a scope and a global
book, since it would be global itself, under a key that is taken. -/
theorem lookup?_addMissing (hvendor : ∀ b ∈ extra, b.Vendor) {name : String} {scope : Scope}
    {key : BookKey} (h : shelf.lookup? name scope = some key) :
    (shelf.addMissing extra).lookup? name scope = some key := by
  unfold lookup? at h ⊢
  by_cases hown : shelf.has ⟨scope, name⟩ = true
  · rw [if_pos hown] at h
    rw [if_pos (has_addMissing_iff.mpr (Or.inl hown))]
    exact h
  · rw [if_neg hown] at h
    by_cases hglobal : shelf.has ⟨.global, name⟩ = true
    · have hfree : ¬(shelf.addMissing extra).has ⟨scope, name⟩ = true := by
        intro hthere
        rcases has_addMissing_iff.mp hthere with hhere | hextra
        · exact hown hhere
        · obtain ⟨b, hb, hkey⟩ := List.mem_map.mp hextra
          have hscope : scope = .global := by
            rw [← (hvendor b hb).scope]
            exact (congrArg BookKey.scope hkey).symm
          exact hown (hscope ▸ hglobal)
      rw [if_pos hglobal] at h
      rw [if_neg hfree, if_pos (has_addMissing_iff.mpr (Or.inl hglobal))]
      exact h
    · rw [if_neg hglobal] at h
      cases h

theorem extends_addMissing (hvendor : ∀ b ∈ extra, b.Vendor) :
    (shelf.addMissing extra).Extends shelf extra := by
  refine ⟨?_, fun _ _ _ => lookup?_addMissing hvendor, ?_⟩
  · intro key book hfind
    rw [find?_addMissing, hfind, Option.some_or]
  · intro key book hfind
    rw [find?_addMissing] at hfind
    rcases Option.or_eq_some_iff.mp hfind with hhere | ⟨hfree, hextra⟩
    · exact Or.inl hhere
    · exact Or.inr ⟨hfree, List.mem_of_find?_eq_some hextra⟩

namespace Extends

variable {key : BookKey} {name : String} {scope : Scope}

/-- Only books that were there before name other books. -/
theorem names (h : larger.Extends shelf extra) (hvendor : ∀ b ∈ extra, b.Vendor)
    (hnames : larger.Names key name) : shelf.Names key name := by
  obtain ⟨book, hfind, hname⟩ := hnames
  rcases h.added key book hfind with hhere | ⟨_, hextra⟩
  · exact ⟨book, hhere, hname⟩
  · obtain ⟨hentries, hexclusions⟩ := (hvendor book hextra).literal name
    exact absurd hname (not_or.mpr ⟨hentries, hexclusions⟩)

theorem closed (h : larger.Extends shelf extra) (hvendor : ∀ b ∈ extra, b.Vendor)
    (hclosed : shelf.Closed) : larger.Closed := by
  have hfound : ∀ key name, larger.Names key name →
      ∃ other, shelf.lookup? name key.scope = some other ∧
        larger.lookup? name key.scope = some other := by
    intro key name hnames
    obtain ⟨other, hlookup⟩ :=
      Option.isSome_iff_exists.mp (hclosed.found key name (h.names hvendor hnames))
    exact ⟨other, hlookup, h.found name key.scope other hlookup⟩
  have hrefers : ∀ key other, larger.Refers key other → shelf.Refers key other := by
    rintro key other ⟨name, hnames, hlookup⟩
    obtain ⟨same, hhere, hthere⟩ := hfound key name hnames
    cases Option.some.inj (hlookup.symm.trans hthere)
    exact ⟨name, h.names hvendor hnames, hhere⟩
  constructor
  · intro key name hnames
    obtain ⟨other, _, hthere⟩ := hfound key name hnames
    exact Option.isSome_iff_exists.mpr ⟨other, hthere⟩
  · intro key hloop
    exact hclosed.acyclic key (Relation.TransGen.mono hrefers key key hloop)

variable [BookSet Literal Set]

/-- What expands does not see the books that were added. -/
theorem expands (h : larger.Extends shelf extra) {subject : Subject Literal} {set : Set}
    (hset : shelf.Expands subject set) : larger.Expands subject set := by
  induction hset with
  | book hfind _ _ ihentries ihexclusions => exact .book (h.kept _ _ hfind) ihentries ihexclusions
  | nil => exact .nil
  | literal _ ih => exact .literal ih
  | reference hlookup _ _ ihnested ihrest =>
    exact .reference (h.found _ _ _ hlookup) ihnested ihrest

theorem standsFor (h : larger.Extends shelf extra) {set : Set}
    (hname : shelf.StandsFor name scope set) : larger.StandsFor name scope set := by
  obtain ⟨key, hlookup, hset⟩ := hname
  exact ⟨key, h.found name scope key hlookup, h.expands hset⟩

/-- A sound table with all books of the larger shelf has what one for the smaller has. -/
theorem find?_kept (h : larger.Extends shelf extra) {t t' : Table Set} (ht : shelf.Sound t)
    (ht' : larger.Sound t') (hkeys' : t'.keys.Perm (larger.books.map Book.key))
    (hkeys : t.keys.Perm (shelf.books.map Book.key)) {set : Set}
    (hfind : t.find? key = some set) : t'.find? key = some set := by
  have hthere : key ∈ shelf.books.map Book.key :=
    hkeys.mem_iff.mp (Table.mem_keys_of_find? hfind)
  have hhere := has_iff.mpr hthere
  rw [has_eq_isSome_find?] at hhere
  obtain ⟨book, hbook⟩ := Option.isSome_iff_exists.mp hhere
  have hlarger : larger.has key = true := by rw [has_eq_isSome_find?, h.kept key book hbook]; rfl
  obtain ⟨set', hfind'⟩ := Table.mem_keys_iff.mp (hkeys'.mem_iff.mpr (has_iff.mp hlarger))
  rw [hfind', (h.expands (ht key set hfind)).unique (ht' key set' hfind')]

end Extends

end Shelf

namespace Catalog

variable {networks : List NetworkBook} {services : List ServiceBook} {c larger : Catalog}

/-- The same books of either kind, and vendor books besides. -/
structure Extends (larger c : Catalog) : Prop where
  networks : larger.networks.Extends c.networks builtinNetworks
  services : larger.services.Extends c.services builtinServices

theorem vendor_builtinNetworks : ∀ b ∈ builtinNetworks, b.Vendor := by
  intro b hb
  obtain ⟨⟨_, _⟩, _, rfl⟩ := List.mem_map.mp hb
  exact ⟨rfl, by simp⟩

theorem vendor_builtinServices : ∀ b ∈ builtinServices, b.Vendor := by
  intro b hb
  obtain ⟨⟨_, _⟩, _, rfl⟩ := List.mem_map.mp hb
  exact ⟨rfl, by simp⟩

theorem Extends.closed (h : larger.Extends c) (hclosed : c.Closed) : larger.Closed :=
  ⟨h.networks.closed vendor_builtinNetworks hclosed.networks,
    h.services.closed vendor_builtinServices hclosed.services⟩

theorem books_of_ofBooks (h : ofBooks networks services false = .ok c) :
    c.networks.books = networks ∧ c.services.books = services := by
  obtain ⟨networkShelf, hnetworkShelf, hrest⟩ := bind_eq_ok.mp h
  obtain ⟨serviceShelf, hserviceShelf, hlast⟩ := bind_eq_ok.mp hrest
  cases hlast
  exact ⟨Shelf.ofBooks_eq_ok (mapError_eq_ok.mp hnetworkShelf),
    Shelf.ofBooks_eq_ok (mapError_eq_ok.mp hserviceShelf)⟩

/-- Books that make up a catalog by themselves also make up one with vendor books. -/
theorem exists_extends (h : ofBooks networks services false = .ok c) :
    ∃ larger, ofBooks networks services true = .ok larger ∧ larger.Extends c := by
  obtain ⟨networkShelf, hnetworkShelf, hrest⟩ := bind_eq_ok.mp h
  obtain ⟨serviceShelf, hserviceShelf, hlast⟩ := bind_eq_ok.mp hrest
  cases hlast
  refine ⟨⟨networkShelf.addMissing builtinNetworks, serviceShelf.addMissing builtinServices⟩, ?_,
    Shelf.extends_addMissing vendor_builtinNetworks,
    Shelf.extends_addMissing vendor_builtinServices⟩
  exact bind_eq_ok.mpr ⟨networkShelf, hnetworkShelf,
    bind_eq_ok.mpr ⟨serviceShelf, hserviceShelf, rfl⟩⟩

end Catalog

end Perimeter
