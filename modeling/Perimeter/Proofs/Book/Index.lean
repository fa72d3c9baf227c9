import Perimeter.Proofs.Book.Extension

/-!
Index and books of a catalog against the lists it is made of. Each shelf lists the
given books in their order and the vendor books with a free key behind them, its
index gives the place of each of them, and look-up names only books that the index
leads to.
-/

namespace Perimeter

namespace Indexes

variable {Literal : Type} {places : Table Nat} {books : List (Book Literal)}

/-- Where keys are distinct, the index gives exactly the place of a book. -/
theorem find?_eq_some_iff (h : Indexes places books) (hdistinct : (books.map Book.key).Nodup)
    {key : BookKey} {i : Nat} :
    places.find? key = some i ↔ ∃ book, books[i]? = some book ∧ book.key = key := by
  constructor
  · exact h.stands key i
  · rintro ⟨book, hi, rfl⟩
    obtain ⟨j, hfind⟩ := Option.isSome_iff_exists.mp (h.listed book (List.mem_of_getElem? hi))
    obtain ⟨other, hj, hkey⟩ := h.stands _ j hfind
    have hlt : i < (books.map Book.key).length := by
      rw [List.length_map]
      exact (List.getElem?_eq_some_iff.mp hi).1
    have hsame : (books.map Book.key)[i]? = (books.map Book.key)[j]? := by
      rw [List.getElem?_map, List.getElem?_map, hi, hj, Option.map_some, Option.map_some, hkey]
    rw [hfind, (List.getElem?_inj hlt hdistinct).mp hsame]

end Indexes

namespace Shelf

variable {Literal : Type} {shelf : Shelf Literal} {given vendor : List (Book Literal)}

/-- Behind the books of a shelf come those of a list whose keys are free there. Keys of
the list are distinct, so what it adds takes none from the books after it. -/
theorem books_addMissing (hdistinct : (vendor.map Book.key).Nodup) :
    (shelf.addMissing vendor).books =
      shelf.books ++ vendor.filter fun b => b.key ∉ shelf.books.map Book.key := by
  unfold addMissing
  induction vendor generalizing shelf with
  | nil => simp
  | cons first rest ih =>
    rw [List.map_cons, List.nodup_cons] at hdistinct
    rw [List.foldl_cons, ih hdistinct.2]
    cases hadd : shelf.add? first with
    | none => rw [Option.getD_none, List.filter_cons_of_neg (by simpa using add?_eq_none_iff.mp hadd)]
    | some next =>
      obtain ⟨hfree, hbooks⟩ := add?_eq_some hadd
      have hrest : rest.filter (fun b => b.key ∉ next.books.map Book.key) =
          rest.filter fun b => b.key ∉ shelf.books.map Book.key := by
        apply List.filter_congr
        intro b hb
        have hother : b.key ≠ first.key := fun hkey => hdistinct.1 (hkey ▸ List.mem_map_of_mem hb)
        simp [hbooks, hother]
      rw [Option.getD_some, hrest, hbooks, List.filter_cons_of_pos (by simpa using hfree),
        List.append_assoc]
      rfl

/-- A name stands for a book of its scope, else for a global one, else for none. -/
theorem lookup?_eq_some_iff {name : String} {scope : Scope} {key : BookKey} :
    shelf.lookup? name scope = some key ↔ key ∈ shelf.books.map Book.key ∧
      (key = ⟨scope, name⟩ ∨
        key = ⟨.global, name⟩ ∧ ⟨scope, name⟩ ∉ shelf.books.map Book.key) := by
  simp only [lookup?, has_iff]
  by_cases hown : ⟨scope, name⟩ ∈ shelf.books.map Book.key
  · rw [if_pos hown, Option.some_inj]
    constructor
    · rintro rfl
      exact ⟨hown, Or.inl rfl⟩
    · rintro ⟨_, rfl | ⟨_, habsent⟩⟩
      · rfl
      · exact absurd hown habsent
  · rw [if_neg hown, Option.ite_none_right_eq_some, Option.some_inj]
    constructor
    · rintro ⟨hglobal, rfl⟩
      exact ⟨hglobal, Or.inr ⟨rfl, hown⟩⟩
    · rintro ⟨hthere, rfl | ⟨rfl, _⟩⟩
      · exact absurd hthere hown
      · exact ⟨hthere, rfl⟩

/-- What a shelf made of given books and vendor books is: the given books in their
order, then the vendor books whose keys are free, each key once. The index gives the
place of every book and no other; a key leads to the given book that has it, else to
the vendor book; and look-up yields only keys that lead to a book. -/
structure Holds (shelf : Shelf Literal) (given vendor : List (Book Literal)) : Prop where
  arena : shelf.books = given ++ vendor.filter fun b => b.key ∉ given.map Book.key
  once : (shelf.books.map Book.key).Nodup
  places : ∀ key i, shelf.places.find? key = some i ↔
    ∃ book, shelf.books[i]? = some book ∧ book.key = key
  find : ∀ key book, shelf.find? key = some book ↔ book.key = key ∧
    (book ∈ given ∨ key.scope = .global ∧ key ∉ given.map Book.key ∧ book ∈ vendor)
  lookup : ∀ name scope key, shelf.lookup? name scope = some key ↔
    key ∈ shelf.books.map Book.key ∧
      (key = ⟨scope, name⟩ ∨ key = ⟨.global, name⟩ ∧ ⟨scope, name⟩ ∉ shelf.books.map Book.key)
  found : ∀ name scope key, shelf.lookup? name scope = some key → (shelf.find? key).isSome

theorem holds_addMissing (hgiven : shelf.books = given) (hglobal : ∀ b ∈ vendor, b.scope = .global)
    (hdistinct : (vendor.map Book.key).Nodup) : (shelf.addMissing vendor).Holds given vendor := by
  subst hgiven
  have hbooks : (shelf.addMissing vendor).books =
      shelf.books ++ vendor.filter fun b => b.key ∉ shelf.books.map Book.key :=
    books_addMissing hdistinct
  refine ⟨hbooks, distinct _, ?_, ?_, fun _ _ _ => lookup?_eq_some_iff, ?_⟩
  · intro key i
    exact (shelf.addMissing vendor).indexed.find?_eq_some_iff (distinct _)
  · intro key book
    rw [find?_eq_some_iff, hbooks, List.mem_append, List.mem_filter, decide_eq_true_iff]
    constructor
    · rintro ⟨hgiven | ⟨hvendor, hfree⟩, rfl⟩
      · exact ⟨rfl, Or.inl hgiven⟩
      · exact ⟨rfl, Or.inr ⟨hglobal book hvendor, hfree, hvendor⟩⟩
    · rintro ⟨rfl, hgiven | ⟨_, hfree, hvendor⟩⟩
      · exact ⟨Or.inl hgiven, rfl⟩
      · exact ⟨Or.inr ⟨hvendor, hfree⟩, rfl⟩
  · intro name scope key h
    rw [← has_eq_isSome_find?]
    exact has_of_lookup? h

theorem holds_of_ofBooks (h : ofBooks given = .ok shelf) (hvendor : ∀ b ∈ vendor, b.Vendor)
    (hdistinct : (vendor.map Book.key).Nodup) (builtins : Bool) :
    (shelf.addMissing (if builtins then vendor else [])).Holds given
      (if builtins then vendor else []) := by
  cases builtins with
  | true =>
    exact holds_addMissing (ofBooks_eq_ok h) (fun b hb => (hvendor b hb).scope) hdistinct
  | false => exact holds_addMissing (ofBooks_eq_ok h) (fun _ hb => nomatch hb) List.nodup_nil

end Shelf

namespace Catalog

variable {networks : List NetworkBook} {services : List ServiceBook} {builtins : Bool}

/-- The vendor network books of a catalog, if it has any. -/
def vendorNetworks (builtins : Bool) : List NetworkBook := if builtins then builtinNetworks else []

/-- The vendor service books of a catalog, if it has any. -/
def vendorServices (builtins : Bool) : List ServiceBook := if builtins then builtinServices else []

theorem ofBooks_of_shelves {shelf : Shelf Network} {other : Shelf PortEntry}
    (hnetworks : Shelf.ofBooks networks = .ok shelf) (hservices : Shelf.ofBooks services = .ok other) :
    ofBooks networks services builtins =
      .ok ⟨shelf.addMissing (vendorNetworks builtins), other.addMissing (vendorServices builtins)⟩ := by
  unfold ofBooks
  rw [hnetworks, hservices]
  cases builtins <;> rfl

theorem exists_ofBooks_eq_error_iff :
    (∃ e, ofBooks networks services builtins = .error e) ↔
      ¬(networks.map Book.key).Nodup ∨ ¬(services.map Book.key).Nodup := by
  simp only [ofBooks_eq_error_iff]
  constructor
  · rintro ⟨_, ⟨key, hkey, _⟩ | ⟨_, key, hkey, _⟩⟩
    · exact Or.inl (Book.exists_firstRepeat_iff.mp ⟨key, hkey⟩)
    · exact Or.inr (Book.exists_firstRepeat_iff.mp ⟨key, hkey⟩)
  · intro h
    by_cases hdistinct : (networks.map Book.key).Nodup
    · obtain ⟨key, hkey⟩ := Book.exists_firstRepeat_iff.mpr (h.resolve_left (not_not.mpr hdistinct))
      exact ⟨_, Or.inr ⟨hdistinct, key, hkey, rfl⟩⟩
    · obtain ⟨key, hkey⟩ := Book.exists_firstRepeat_iff.mpr hdistinct
      exact ⟨_, Or.inl ⟨key, hkey, rfl⟩⟩

theorem holds_of_ofBooks {c : Catalog} (h : ofBooks networks services builtins = .ok c) :
    c.networks.Holds networks (vendorNetworks builtins) ∧
      c.services.Holds services (vendorServices builtins) := by
  obtain ⟨hnetworks, hservices, _⟩ := of_ofBooks h
  obtain ⟨shelf, hshelf⟩ := Shelf.exists_ofBooks_iff.mpr hnetworks
  obtain ⟨other, hother⟩ := Shelf.exists_ofBooks_iff.mpr hservices
  rw [ofBooks_of_shelves hshelf hother] at h
  cases h
  exact ⟨Shelf.holds_of_ofBooks hshelf vendor_builtinNetworks (by decide) builtins,
    Shelf.holds_of_ofBooks hother vendor_builtinServices (by decide) builtins⟩

/-- Books of both kinds make up a catalog unless two of one kind have one key; the
first network book that repeats a key is reported, or else the first such service
book. In the catalog the index of either kind agrees with its books. -/
theorem ofBooks_exact (networks : List NetworkBook) (services : List ServiceBook)
    (builtins : Bool) :
    ((∃ e, ofBooks networks services builtins = .error e) ↔
      ¬(networks.map Book.key).Nodup ∨ ¬(services.map Book.key).Nodup) ∧
    (∀ e, ofBooks networks services builtins = .error e ↔
      (∃ key, Book.FirstRepeat networks key ∧ e = .duplicate .network key) ∨
        (networks.map Book.key).Nodup ∧
          ∃ key, Book.FirstRepeat services key ∧ e = .duplicate .service key) ∧
    ∀ c, ofBooks networks services builtins = .ok c →
      c.networks.Holds networks (vendorNetworks builtins) ∧
        c.services.Holds services (vendorServices builtins) :=
  ⟨exists_ofBooks_eq_error_iff, fun _ => ofBooks_eq_error_iff, fun _ => holds_of_ofBooks⟩

/-- A book of a device and a global one, both with the name that a vendor book has. -/
def overridden : List NetworkBook :=
  [⟨"any", .device "fw", [.literal ⟨⟨.v4, 167772416, by decide⟩, 24, by decide⟩], []⟩,
    ⟨"any", .global, [.literal ⟨⟨.v4, 167772160, by decide⟩, 8, by decide⟩], []⟩]

theorem overridden_holds :
    ∃ c, ofBooks overridden [] true = .ok c ∧ c.networks.Holds overridden builtinNetworks ∧
      c.services.Holds [] builtinServices := by
  obtain ⟨hfails, _, hholds⟩ := ofBooks_exact overridden [] true
  cases hc : ofBooks overridden [] true with
  | error e => exact absurd (hfails.mp ⟨e, hc⟩) (by decide)
  | ok c => exact ⟨c, rfl, hholds c hc⟩

end Catalog

end Perimeter
