import Perimeter.Proofs.Book.Answers
import Perimeter.Proofs.Book.Work
import Perimeter.Proofs.Service.Canonical

/-!
Books in another order. Neither the order of books nor that of the items in a
book carries a meaning: look-up finds the same keys, and since a union does not
depend on the order in which it is formed, every book expands to the same set.
-/

namespace Perimeter

theorem IntervalSet.union_left_comm {top : Nat} (s t u : IntervalSet top) :
    s.union (t.union u) = t.union (s.union u) := by
  apply ext_mem
  intro n
  simp only [mem_union]
  exact or_left_comm

theorem NetworkSet.union_left_comm (s t u : NetworkSet) :
    s.union (t.union u) = t.union (s.union u) := by
  unfold union
  rw [IntervalSet.union_left_comm s.v4, IntervalSet.union_left_comm s.v6]

theorem ServiceSet.union_left_comm (s t u : ServiceSet) :
    s.union (t.union u) = t.union (s.union u) := by
  apply ext_portsFor
  · exact IntervalSet.union_left_comm s.rest t.rest u.rest
  · intro p
    simp only [union, portsFor_combine]
    exact IntervalSet.union_left_comm (s.portsFor p) (t.portsFor p) (u.portsFor p)

instance : LeftCommutative (BookSet.union Network) := ⟨NetworkSet.union_left_comm⟩

instance : LeftCommutative (BookSet.union PortEntry) := ⟨ServiceSet.union_left_comm⟩

namespace Book

variable {Literal : Type} {books books' : List (Book Literal)}

/-- The same book with its items in another order. -/
structure Reordered (b b' : Book Literal) : Prop where
  key : b.key = b'.key
  entries : b.entries.Perm b'.entries
  exclusions : b.exclusions.Perm b'.exclusions

theorem Reordered.symm {b b' : Book Literal} (h : b.Reordered b') : b'.Reordered b :=
  ⟨h.key.symm, h.entries.symm, h.exclusions.symm⟩

theorem Reordered.refl (b : Book Literal) : b.Reordered b := ⟨rfl, .refl _, .refl _⟩

theorem Reordered.mem_items {b b' : Book Literal} (h : b.Reordered b') {item : Entry Literal} :
    item ∈ b.entries ++ b.exclusions ↔ item ∈ b'.entries ++ b'.exclusions :=
  (h.entries.append h.exclusions).mem_iff

/-- The same books in another order, and so the items of each. -/
def ListReordered (books books' : List (Book Literal)) : Prop :=
  ∃ between, books.Perm between ∧ List.Forall₂ Reordered between books'

theorem ListReordered.keys_perm (h : ListReordered books books') :
    (books.map key).Perm (books'.map key) := by
  obtain ⟨between, hperm, hall⟩ := h
  rw [← map_eq_map_of_forall₂ hall fun _ _ hbook => hbook.key]
  exact hperm.map key

theorem ListReordered.exists_of_mem (h : ListReordered books books') {b' : Book Literal}
    (hb : b' ∈ books') : ∃ b ∈ books, b.Reordered b' := by
  obtain ⟨between, hperm, hall⟩ := h
  obtain ⟨b, hmem, hbook⟩ := exists_of_mem_right hall hb
  exact ⟨b, hperm.mem_iff.mpr hmem, hbook⟩

end Book

namespace Shelf

variable {Literal : Type} {shelf shelf' : Shelf Literal}

/-- The same books under the same keys, with their items in another order. -/
def Reordered (shelf shelf' : Shelf Literal) : Prop :=
  ∀ key, Option.Rel Book.Reordered (shelf.find? key) (shelf'.find? key)

namespace Reordered

variable {key : BookKey} {name : String} {scope : Scope}

theorem symm (h : shelf.Reordered shelf') : shelf'.Reordered shelf := by
  intro key
  have hboth := h key
  generalize shelf.find? key = found, shelf'.find? key = found' at hboth ⊢
  cases hboth with
  | some hbook => exact .some hbook.symm
  | none => exact .none

theorem exists_book (h : shelf.Reordered shelf') {book : Book Literal}
    (hfind : shelf.find? key = some book) :
    ∃ book', shelf'.find? key = some book' ∧ book.Reordered book' := by
  have hboth := h key
  rw [hfind] at hboth
  cases hother : shelf'.find? key with
  | none =>
    rw [hother] at hboth
    cases hboth
  | some book' =>
    rw [hother] at hboth
    cases hboth with
    | some hbook => exact ⟨book', rfl, hbook⟩

theorem has_eq (h : shelf.Reordered shelf') (key : BookKey) : shelf.has key = shelf'.has key := by
  rw [Bool.eq_iff_iff, has_eq_isSome_find?, has_eq_isSome_find?, Option.isSome_iff_exists,
    Option.isSome_iff_exists]
  constructor
  · rintro ⟨book, hfind⟩
    obtain ⟨book', hfind', _⟩ := h.exists_book hfind
    exact ⟨book', hfind'⟩
  · rintro ⟨book', hfind'⟩
    obtain ⟨book, hfind, _⟩ := h.symm.exists_book hfind'
    exact ⟨book, hfind⟩

theorem lookup?_eq (h : shelf.Reordered shelf') (name : String) (scope : Scope) :
    shelf.lookup? name scope = shelf'.lookup? name scope := by
  unfold lookup?
  rw [h.has_eq, h.has_eq]

theorem names (h : shelf.Reordered shelf') (hnames : shelf.Names key name) :
    shelf'.Names key name := by
  obtain ⟨book, hfind, hname⟩ := hnames
  obtain ⟨book', hfind', hbook⟩ := h.exists_book hfind
  rw [hbook.entries.mem_iff, hbook.exclusions.mem_iff] at hname
  exact ⟨book', hfind', hname⟩

theorem closed (h : shelf.Reordered shelf') (hclosed : shelf.Closed) : shelf'.Closed := by
  have hrefers : ∀ key other, shelf'.Refers key other → shelf.Refers key other := by
    rintro key other ⟨name, hnames, hlookup⟩
    exact ⟨name, h.symm.names hnames, (h.lookup?_eq name key.scope).trans hlookup⟩
  constructor
  · intro key name hnames
    rw [← h.lookup?_eq]
    exact hclosed.found key name (h.symm.names hnames)
  · intro key hloop
    exact hclosed.acyclic key (Relation.TransGen.mono hrefers key key hloop)

end Reordered

theorem reordered_of_books (h : Book.ListReordered shelf.books shelf'.books) :
    shelf.Reordered shelf' := by
  intro key
  cases hfind : shelf'.find? key with
  | none =>
    have hoff : key ∉ shelf.books.map Book.key := by
      rw [h.keys_perm.mem_iff, ← has_eq_false_iff, has_eq_isSome_find?, hfind]
      rfl
    rw [← has_eq_false_iff, has_eq_isSome_find?, Option.isSome_eq_false_iff, Option.isNone_iff_eq_none] at hoff
    rw [hoff]
    exact .none
  | some book' =>
    obtain ⟨hmem, rfl⟩ := find?_eq_some_iff.mp hfind
    obtain ⟨book, hbook, hsame⟩ := h.exists_of_mem hmem
    rw [find?_eq_some_iff.mpr ⟨hbook, hsame.key⟩]
    exact .some hsame

/-- Vendor books are added where the key is free, which does not depend on the order. -/
theorem Reordered.addMissing (h : shelf.Reordered shelf') (extra : List (Book Literal)) :
    (shelf.addMissing extra).Reordered (shelf'.addMissing extra) := by
  intro key
  have hboth := h key
  rw [find?_addMissing, find?_addMissing]
  generalize shelf.find? key = found, shelf'.find? key = found' at hboth ⊢
  cases hboth with
  | some hbook => exact .some hbook
  | none =>
    rw [Option.none_or]
    cases extra.find? (·.key == key) with
    | none => exact .none
    | some book => exact .some (.refl book)

variable {Set : Type} [BookSet Literal Set]

/-- What an item stands for, as seen from a scope. -/
def ItemExpands (shelf : Shelf Literal) (scope : Scope) : Entry Literal → Set → Prop
  | .literal item, set => set = BookSet.ofLiteral item
  | .book name, set => shelf.StandsFor name scope set

/-- Items expand to the union of what each of them stands for. -/
theorem expands_items_iff {scope : Scope} {items : List (Entry Literal)} {set : Set} :
    shelf.Expands (.items scope items) set ↔
      ∃ sets, List.Forall₂ (shelf.ItemExpands scope) items sets ∧
        sets.foldr (BookSet.union Literal) (BookSet.empty Literal) = set := by
  induction items generalizing set with
  | nil =>
    constructor
    · rintro ⟨⟩
      exact ⟨[], .nil, rfl⟩
    · rintro ⟨_, ⟨⟩, rfl⟩
      exact .nil
  | cons item rest ih =>
    constructor
    · intro h
      cases h with
      | literal hrest =>
        obtain ⟨sets, hall, rfl⟩ := ih.mp hrest
        exact ⟨_ :: sets, .cons rfl hall, rfl⟩
      | reference hlookup hnested hrest =>
        obtain ⟨sets, hall, rfl⟩ := ih.mp hrest
        exact ⟨_ :: sets, .cons ⟨_, hlookup, hnested⟩ hall, rfl⟩
    · rintro ⟨_, hall, rfl⟩
      cases hall with
      | cons hitem hall =>
        have hrest := ih.mpr ⟨_, hall, rfl⟩
        cases item with
        | literal item =>
          cases hitem
          exact .literal hrest
        | book name =>
          obtain ⟨key, hlookup, hnested⟩ := hitem
          exact .reference hlookup hnested hrest

section Union

variable [LeftCommutative (BookSet.union Literal : Set → Set → Set)]

/-- The order of items makes no difference to what they expand to. -/
theorem Expands.of_perm {scope : Scope} {items items' : List (Entry Literal)} {set : Set}
    (h : shelf.Expands (.items scope items) set) (hperm : items.Perm items') :
    shelf.Expands (.items scope items') set := by
  obtain ⟨sets, hall, rfl⟩ := expands_items_iff.mp h
  obtain ⟨sets', hall', hsets⟩ := List.perm_comp_forall₂ hperm.symm hall
  exact expands_items_iff.mpr ⟨sets', hall', hsets.foldr_eq _⟩

/-- Reordered books expand to the same sets. -/
theorem Reordered.expands (h : shelf.Reordered shelf') {subject : Subject Literal} {set : Set}
    (hset : shelf.Expands subject set) : shelf'.Expands subject set := by
  induction hset with
  | book hfind _ _ ihentries ihexclusions =>
    obtain ⟨book', hfind', hbook⟩ := h.exists_book hfind
    exact .book hfind' (ihentries.of_perm hbook.entries) (ihexclusions.of_perm hbook.exclusions)
  | nil => exact .nil
  | literal _ ih => exact .literal ih
  | reference hlookup _ _ ihnested ihrest =>
    rw [h.lookup?_eq] at hlookup
    exact .reference hlookup ihnested ihrest

theorem Reordered.standsFor (h : shelf.Reordered shelf') {name : String} {scope : Scope}
    {set : Set} (hname : shelf.StandsFor name scope set) : shelf'.StandsFor name scope set := by
  obtain ⟨key, hlookup, hset⟩ := hname
  rw [h.lookup?_eq] at hlookup
  exact ⟨key, hlookup, h.expands hset⟩

/-- Sound tables with all books of reordered shelves are the same map. -/
theorem Reordered.find?_eq (h : shelf.Reordered shelf') {t t' : Table Set} (ht : shelf.Sound t)
    (ht' : shelf'.Sound t') (hkeys : t.keys.Perm (shelf.books.map Book.key))
    (hkeys' : t'.keys.Perm (shelf'.books.map Book.key)) (key : BookKey) :
    t.find? key = t'.find? key := by
  have hthere : key ∈ t.keys ↔ key ∈ t'.keys := by
    rw [hkeys.mem_iff, hkeys'.mem_iff, ← has_iff, ← has_iff, h.has_eq]
  cases hfind : t.find? key with
  | none => exact (Table.not_mem_keys_iff.mp (hthere.not.mp (Table.not_mem_keys_iff.mpr hfind))).symm
  | some set =>
    obtain ⟨set', hfind'⟩ := Table.mem_keys_iff.mp (hthere.mp (Table.mem_keys_of_find? hfind))
    rw [hfind', (h.expands (ht key set hfind)).unique (ht' key set' hfind')]

end Union

end Shelf

namespace Catalog

/-- The same books of either kind, in another order. -/
structure Reordered (c c' : Catalog) : Prop where
  networks : c.networks.Reordered c'.networks
  services : c.services.Reordered c'.services

theorem Reordered.closed {c c' : Catalog} (h : c.Reordered c') (hclosed : c.Closed) : c'.Closed :=
  ⟨h.networks.closed hclosed.networks, h.services.closed hclosed.services⟩

/-- Books in another order make up a catalog that differs in the order only. -/
theorem reordered_of_ofBooks {networks networks' : List NetworkBook}
    {services services' : List ServiceBook} {builtins : Bool} {c c' : Catalog}
    (hnetworks : Book.ListReordered networks networks')
    (hservices : Book.ListReordered services services')
    (h : ofBooks networks services builtins = .ok c)
    (h' : ofBooks networks' services' builtins = .ok c') : c.Reordered c' := by
  obtain ⟨networkShelf, hnetworkShelf, hrest⟩ := bind_eq_ok.mp h
  obtain ⟨serviceShelf, hserviceShelf, hlast⟩ := bind_eq_ok.mp hrest
  obtain ⟨networkShelf', hnetworkShelf', hrest'⟩ := bind_eq_ok.mp h'
  obtain ⟨serviceShelf', hserviceShelf', hlast'⟩ := bind_eq_ok.mp hrest'
  rw [← Shelf.ofBooks_eq_ok (mapError_eq_ok.mp hnetworkShelf),
    ← Shelf.ofBooks_eq_ok (mapError_eq_ok.mp hnetworkShelf')] at hnetworks
  rw [← Shelf.ofBooks_eq_ok (mapError_eq_ok.mp hserviceShelf),
    ← Shelf.ofBooks_eq_ok (mapError_eq_ok.mp hserviceShelf')] at hservices
  have hnetworks := Shelf.reordered_of_books hnetworks
  have hservices := Shelf.reordered_of_books hservices
  cases builtins with
  | true =>
    cases hlast
    cases hlast'
    exact ⟨hnetworks.addMissing _, hservices.addMissing _⟩
  | false =>
    cases hlast
    cases hlast'
    exact ⟨hnetworks, hservices⟩

end Catalog

end Perimeter
