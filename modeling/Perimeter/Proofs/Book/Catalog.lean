import Mathlib.Data.List.Duplicate
import Mathlib.Data.List.Induction
import Perimeter.Book.Catalog
import Perimeter.Proofs.Book.Table
import Perimeter.Proofs.Checked

/-!
What is in a catalog: every book that it was made of, in order, and behind them
vendor books whose keys were free. It can be made exactly when no two network
books and no two service books have one key. A list with such books is rejected for
the first one that comes after another with its key.
-/

namespace Perimeter

namespace Book

variable {Literal : Type} {books : List (Book Literal)} {key : BookKey}

/-- Enters the books of a list into an index, with the places from a number on. -/
def placesFrom (places : Table Nat) (n : Nat) : List (Book Literal) → Table Nat
  | [] => places
  | book :: rest => placesFrom (places.insert book.key n) (n + 1) rest

/-- The key of the first book of a list before which another one has its key. -/
def FirstRepeat (books : List (Book Literal)) (key : BookKey) : Prop :=
  ∃ before book after, books = before ++ book :: after ∧ (before.map Book.key).Nodup ∧
    book.key ∈ before.map Book.key ∧ book.key = key

theorem FirstRepeat.append (h : FirstRepeat books key) (more : List (Book Literal)) :
    FirstRepeat (books ++ more) key := by
  obtain ⟨before, book, after, rfl, hrest⟩ := h
  exact ⟨before, book, after ++ more, by simp, hrest⟩

theorem FirstRepeat.duplicate (h : FirstRepeat books key) :
    (books.map Book.key).Duplicate key := by
  obtain ⟨before, book, after, rfl, _, htaken, rfl⟩ := h
  have hlater : [book.key].Sublist ((book :: after).map Book.key) := by simp
  rw [List.map_append, List.duplicate_iff_sublist]
  exact (List.singleton_sublist.mpr htaken).append hlater

/-- Keys repeat exactly where there is a first one that does. -/
theorem exists_firstRepeat_iff :
    (∃ key, FirstRepeat books key) ↔ ¬(books.map Book.key).Nodup := by
  constructor
  · rintro ⟨key, hkey⟩
    exact List.exists_duplicate_iff_not_nodup.mp ⟨key, hkey.duplicate⟩
  · intro h
    induction books using List.reverseRecOn with
    | nil => exact absurd List.nodup_nil h
    | append_singleton before book ih =>
      by_cases hbefore : (before.map Book.key).Nodup
      · refine ⟨book.key, before, book, [], rfl, hbefore, ?_, rfl⟩
        by_contra hfree
        rw [List.map_append, List.map_singleton, ← List.concat_eq_append] at h
        exact h (hbefore.concat hfree)
      · obtain ⟨key, hkey⟩ := ih hbefore
        exact ⟨key, hkey.append [book]⟩

end Book

theorem Indexes.append {Literal : Type} {places : Table Nat} {books : List (Book Literal)}
    (h : Indexes places books) (more : List (Book Literal)) :
    Indexes (Book.placesFrom places books.length more) (books ++ more) := by
  induction more generalizing places books with
  | nil => rwa [Book.placesFrom, List.append_nil]
  | cons book rest ih =>
    have hrest := ih (h.concat book)
    rwa [List.length_append, List.append_assoc] at hrest

namespace Shelf

variable {Literal : Type}

/-- The shelf of books whose keys are distinct. -/
def ofDistinct (books : List (Book Literal)) (distinct : (books.map Book.key).Nodup) :
    Shelf Literal where
  books := books
  places := Book.placesFrom .empty 0 books
  distinct := distinct
  indexed := Indexes.empty.append books

theorem has_iff {shelf : Shelf Literal} {key : BookKey} :
    shelf.has key = true ↔ key ∈ shelf.books.map Book.key := by
  rw [← not_iff_not, Bool.not_eq_true, has_eq_false_iff]

theorem find?_eq_some_iff {shelf : Shelf Literal} {key : BookKey} {book : Book Literal} :
    shelf.find? key = some book ↔ book ∈ shelf.books ∧ book.key = key := by
  constructor
  · exact mem_of_find?
  · rintro ⟨hbook, rfl⟩
    have hthere := has_iff.mpr (List.mem_map_of_mem hbook)
    rw [has_eq_isSome_find?, Option.isSome_iff_exists] at hthere
    obtain ⟨other, hfind⟩ := hthere
    obtain ⟨hother, hkey⟩ := mem_of_find? hfind
    rw [hfind, List.inj_on_of_nodup_map shelf.distinct hother hbook hkey]

/-- The index leads to the book that a look through all books would find. -/
theorem find?_eq_find?_books (shelf : Shelf Literal) (key : BookKey) :
    shelf.find? key = shelf.books.find? (·.key == key) := by
  apply Option.ext
  intro book
  rw [find?_eq_some_iff]
  exact (find?_key_eq_some_iff fun _ hbook _ hother hkey =>
    List.inj_on_of_nodup_map shelf.distinct hbook hother hkey).symm

theorem add?_eq_some {shelf after : Shelf Literal} {book : Book Literal}
    (h : shelf.add? book = some after) :
    book.key ∉ shelf.books.map Book.key ∧ after.books = shelf.books ++ [book] := by
  unfold add? at h
  split at h
  · rename_i hfree
    cases h
    exact ⟨has_eq_false_iff.mp hfree, rfl⟩
  · cases h

theorem add?_eq_none_iff {shelf : Shelf Literal} {book : Book Literal} :
    shelf.add? book = none ↔ book.key ∈ shelf.books.map Book.key := by
  unfold add?
  split
  · rename_i hfree
    simpa using has_eq_false_iff.mp hfree
  · rename_i htaken
    rw [Bool.not_eq_false] at htaken
    simpa using has_iff.mp htaken

/-- A shelf with one book more, or the key of the book where it is taken. -/
def enlist (shelf : Shelf Literal) (book : Book Literal) : Except BookKey (Shelf Literal) :=
  (shelf.add? book).elim (.error book.key) .ok

theorem ofBooks_eq_foldlM (books : List (Book Literal)) :
    ofBooks books = books.foldlM enlist empty := by
  unfold ofBooks
  congr 1
  funext shelf book
  unfold enlist
  cases shelf.add? book <;> rfl

theorem enlist_eq_ok {shelf after : Shelf Literal} {book : Book Literal}
    (h : shelf.enlist book = .ok after) : after.books = shelf.books ++ [book] := by
  unfold enlist at h
  cases hadd : shelf.add? book with
  | none =>
    rw [hadd] at h
    cases h
  | some next =>
    rw [hadd] at h
    cases h
    exact (add?_eq_some hadd).2

/-- Admitting books one after another puts them behind the others. -/
theorem foldlM_enlist_eq_ok {books : List (Book Literal)} {shelf after : Shelf Literal}
    (h : books.foldlM enlist shelf = .ok after) : after.books = shelf.books ++ books := by
  induction books generalizing shelf with
  | nil =>
    cases h
    simp
  | cons book rest ih =>
    rw [List.foldlM_cons] at h
    obtain ⟨next, hnext, hrest⟩ := bind_eq_ok.mp h
    rw [ih hrest, enlist_eq_ok hnext, List.append_assoc]
    rfl

theorem ofBooks_eq_ok {books : List (Book Literal)} {shelf : Shelf Literal}
    (h : ofBooks books = .ok shelf) : shelf.books = books := by
  rw [ofBooks_eq_foldlM] at h
  exact foldlM_enlist_eq_ok h

section OfBooks

variable {shelf : Shelf Literal} {books : List (Book Literal)}

/-- Books whose keys are free and distinct are all admitted. -/
theorem exists_foldlM_enlist (h : ((shelf.books ++ books).map Book.key).Nodup) :
    ∃ after, books.foldlM enlist shelf = .ok after := by
  induction books generalizing shelf with
  | nil => exact ⟨shelf, rfl⟩
  | cons book rest ih =>
    cases hadd : shelf.add? book with
    | none =>
      rw [List.map_append, List.map_cons, List.nodup_middle] at h
      exact absurd (List.mem_append_left _ (add?_eq_none_iff.mp hadd)) (List.nodup_cons.mp h).1
    | some next =>
      have hnext : shelf.enlist book = .ok next := by rw [enlist, hadd]; rfl
      rw [List.foldlM_cons, hnext]
      apply ih
      rwa [(add?_eq_some hadd).2, List.append_assoc]

theorem exists_ofBooks_iff : (∃ shelf, ofBooks books = .ok shelf) ↔ (books.map Book.key).Nodup := by
  constructor
  · rintro ⟨shelf, h⟩
    rw [← ofBooks_eq_ok h]
    exact shelf.distinct
  · intro h
    rw [ofBooks_eq_foldlM]
    exact exists_foldlM_enlist h

theorem ofBooks_of_firstRepeat {key : BookKey} (h : Book.FirstRepeat books key) :
    ofBooks books = .error key := by
  obtain ⟨before, book, after, rfl, hbefore, htaken, rfl⟩ := h
  obtain ⟨next, hnext⟩ := exists_ofBooks_iff.mpr hbefore
  have hstop : next.enlist book = .error book.key := by
    rw [enlist, add?_eq_none_iff.mpr (by rwa [ofBooks_eq_ok hnext])]
    rfl
  rw [ofBooks_eq_foldlM] at hnext ⊢
  rw [List.foldlM_append, hnext]
  change (book :: after).foldlM enlist next = .error book.key
  rw [List.foldlM_cons, hstop]
  rfl

theorem ofBooks_eq_error_iff {key : BookKey} :
    ofBooks books = .error key ↔ Book.FirstRepeat books key := by
  refine ⟨fun h => ?_, ofBooks_of_firstRepeat⟩
  have hrepeat : ¬(books.map Book.key).Nodup := by
    intro hdistinct
    obtain ⟨shelf, hshelf⟩ := exists_ofBooks_iff.mpr hdistinct
    cases h.symm.trans hshelf
  obtain ⟨first, hfirst⟩ := Book.exists_firstRepeat_iff.mpr hrepeat
  cases h.symm.trans (ofBooks_of_firstRepeat hfirst)
  exact hfirst

theorem ofBooks_eq_error {key : BookKey} (h : ofBooks books = .error key) :
    (books.map Book.key).Duplicate key :=
  (ofBooks_eq_error_iff.mp h).duplicate

end OfBooks

theorem mem_addMissing {shelf : Shelf Literal} {extra : List (Book Literal)} {book : Book Literal}
    (h : book ∈ (shelf.addMissing extra).books) : book ∈ shelf.books ∨ book ∈ extra := by
  unfold addMissing at h
  induction extra generalizing shelf with
  | nil => exact Or.inl h
  | cons first rest ih =>
    rw [List.foldl_cons] at h
    rcases ih h with hbefore | hrest
    · cases hadd : shelf.add? first with
      | none =>
        rw [hadd] at hbefore
        exact Or.inl hbefore
      | some after =>
        rw [hadd, Option.getD_some, (add?_eq_some hadd).2, List.mem_append] at hbefore
        rcases hbefore with hbook | hfirst
        · exact Or.inl hbook
        · exact Or.inr (List.mem_cons.mpr (Or.inl (List.mem_singleton.mp hfirst)))
    · exact Or.inr (List.mem_cons_of_mem _ hrest)

/-- A shelf to which missing books were added has its own book under a key before theirs. -/
theorem find?_addMissing (shelf : Shelf Literal) (extra : List (Book Literal)) (key : BookKey) :
    (shelf.addMissing extra).find? key = (shelf.find? key).or (extra.find? (·.key == key)) := by
  unfold addMissing
  induction extra generalizing shelf with
  | nil => simp
  | cons first rest ih =>
    have hfirst : ((shelf.add? first).getD shelf).find? key =
        (shelf.find? key).or ([first].find? (·.key == key)) := by
      cases hadd : shelf.add? first with
      | some after =>
        rw [Option.getD_some, find?_eq_find?_books, find?_eq_find?_books, (add?_eq_some hadd).2,
          List.find?_append]
      | none =>
        by_cases hkey : first.key = key
        · have hthere := has_iff.mpr (add?_eq_none_iff.mp hadd)
          rw [has_eq_isSome_find?] at hthere
          obtain ⟨book, hfind⟩ := Option.isSome_iff_exists.mp hthere
          rw [hkey] at hfind
          simp [hfind]
        · simp [hkey]
    rw [List.foldl_cons, ih, hfirst, Option.or_assoc, ← List.find?_append]
    rfl

end Shelf

/-- The keys of some books of a kind. -/
def BookKind.keys (networks : List NetworkBook) (services : List ServiceBook) :
    BookKind → List BookKey
  | .network => networks.map Book.key
  | .service => services.map Book.key

namespace Catalog

variable {networks : List NetworkBook} {services : List ServiceBook} {builtins : Bool}

/-- A catalog that is made holds the books it is made of, which have keys of
their own, and global ones besides. -/
theorem of_ofBooks {c : Catalog} (h : ofBooks networks services builtins = .ok c) :
    (networks.map Book.key).Nodup ∧ (services.map Book.key).Nodup ∧
      (∀ b ∈ c.networks.books, b ∈ networks ∨ b.scope = .global) ∧
      ∀ b ∈ c.services.books, b ∈ services ∨ b.scope = .global := by
  obtain ⟨networkShelf, hnetworkShelf, hrest⟩ := bind_eq_ok.mp h
  obtain ⟨serviceShelf, hserviceShelf, hlast⟩ := bind_eq_ok.mp hrest
  have hnetworks := Shelf.ofBooks_eq_ok (mapError_eq_ok.mp hnetworkShelf)
  have hservices := Shelf.ofBooks_eq_ok (mapError_eq_ok.mp hserviceShelf)
  rw [← hnetworks, ← hservices]
  refine ⟨networkShelf.distinct, serviceShelf.distinct, ?_⟩
  cases builtins with
  | true =>
    cases hlast
    constructor
    · intro b hb
      apply (Shelf.mem_addMissing hb).imp_right
      simp only [builtinNetworks, List.mem_map]
      rintro ⟨_, _, rfl⟩
      rfl
    · intro b hb
      apply (Shelf.mem_addMissing hb).imp_right
      simp only [builtinServices, List.mem_map]
      rintro ⟨_, _, rfl⟩
      rfl
  | false =>
    cases hlast
    exact ⟨fun b hb => Or.inl hb, fun b hb => Or.inl hb⟩

theorem ofBooks_of_network {key : BookKey} (h : Shelf.ofBooks networks = .error key) :
    ofBooks networks services builtins = .error (.duplicate .network key) := by
  unfold ofBooks
  rw [h]
  rfl

theorem ofBooks_of_service {key : BookKey} {shelf : Shelf Network}
    (hnetworks : Shelf.ofBooks networks = .ok shelf) (h : Shelf.ofBooks services = .error key) :
    ofBooks networks services builtins = .error (.duplicate .service key) := by
  unfold ofBooks
  rw [hnetworks, h]
  rfl

theorem ofBooks_eq_error_iff {e : BookError} :
    ofBooks networks services builtins = .error e ↔
      (∃ key, Book.FirstRepeat networks key ∧ e = .duplicate .network key) ∨
        (networks.map Book.key).Nodup ∧
          ∃ key, Book.FirstRepeat services key ∧ e = .duplicate .service key := by
  constructor
  · intro h
    cases hnetworks : Shelf.ofBooks networks with
    | error key =>
      rw [ofBooks_of_network hnetworks] at h
      cases h
      exact Or.inl ⟨key, Shelf.ofBooks_eq_error_iff.mp hnetworks, rfl⟩
    | ok shelf =>
      have hdistinct := Shelf.exists_ofBooks_iff.mp ⟨shelf, hnetworks⟩
      cases hservices : Shelf.ofBooks services with
      | error key =>
        rw [ofBooks_of_service hnetworks hservices] at h
        cases h
        exact Or.inr ⟨hdistinct, key, Shelf.ofBooks_eq_error_iff.mp hservices, rfl⟩
      | ok other =>
        unfold ofBooks at h
        rw [hnetworks, hservices] at h
        cases builtins <;> cases h
  · rintro (⟨key, hkey, rfl⟩ | ⟨hdistinct, key, hkey, rfl⟩)
    · exact ofBooks_of_network (Shelf.ofBooks_eq_error_iff.mpr hkey)
    · obtain ⟨shelf, hnetworks⟩ := Shelf.exists_ofBooks_iff.mpr hdistinct
      exact ofBooks_of_service hnetworks (Shelf.ofBooks_eq_error_iff.mpr hkey)

/-- Where no catalog can be made, the key that is reported repeats. -/
theorem ofBooks_eq_error {e : BookError} (h : ofBooks networks services builtins = .error e) :
    ∃ kind key, e = .duplicate kind key ∧ (kind.keys networks services).Duplicate key := by
  rcases ofBooks_eq_error_iff.mp h with ⟨key, hkey, rfl⟩ | ⟨_, key, hkey, rfl⟩
  · exact ⟨.network, key, rfl, hkey.duplicate⟩
  · exact ⟨.service, key, rfl, hkey.duplicate⟩

end Catalog

end Perimeter
