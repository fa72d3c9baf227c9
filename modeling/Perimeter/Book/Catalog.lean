import Perimeter.Book.Table

/-!
The catalog of every book of a snapshot: one shelf for each kind. A shelf keeps
its books in the order in which they were added and holds one book for each
key. An index gives the place of each book among them by its key; look-up asks the
index only. A reference is looked up in the scope that makes it, then among the
global books. Vendors define some global books implicitly; they join the catalog
wherever no book has their name.
-/

namespace Perimeter

/-- The index gives the places of the books of a list and no others. -/
structure Indexes {Literal : Type} (places : Table Nat) (books : List (Book Literal)) : Prop where
  stands : ∀ key i, places.find? key = some i → ∃ book, books[i]? = some book ∧ book.key = key
  listed : ∀ book ∈ books, (places.find? book.key).isSome

namespace Indexes

variable {Literal : Type} {places : Table Nat} {books : List (Book Literal)} {key : BookKey}

theorem empty : Indexes .empty ([] : List (Book Literal)) where
  stands _ _ h := nomatch h
  listed _ h := nomatch h

theorem find?_eq_none_iff (h : Indexes places books) :
    places.find? key = none ↔ key ∉ books.map Book.key := by
  constructor
  · intro hnone hmem
    obtain ⟨book, hbook, rfl⟩ := List.mem_map.1 hmem
    have hsome := h.listed book hbook
    rw [hnone] at hsome
    cases hsome
  · intro hoff
    cases hfind : places.find? key with
    | none => rfl
    | some i =>
      obtain ⟨book, hbook, rfl⟩ := h.stands key i hfind
      exact absurd (List.mem_map.2 ⟨book, List.mem_of_getElem? hbook, rfl⟩) hoff

/-- A book that is added after the others gets the first place that is free. -/
theorem concat (h : Indexes places books) (book : Book Literal) :
    Indexes (places.insert book.key books.length) (books ++ [book]) where
  stands key i hfind := by
    rw [Table.find?_insert] at hfind
    split at hfind
    · rename_i hkey
      cases hfind
      exact ⟨book, List.getElem?_concat_length, hkey.symm⟩
    · obtain ⟨other, hother, hkey⟩ := h.stands key i hfind
      have hlt : i < books.length := (List.getElem?_eq_some_iff.1 hother).1
      exact ⟨other, (List.getElem?_append_left hlt).trans hother, hkey⟩
  listed other hother := by
    rw [Table.find?_insert]
    split
    · rfl
    · rename_i hkey
      rcases List.mem_append.1 hother with hbefore | hlast
      · exact h.listed other hbefore
      · exact absurd (congrArg Book.key (List.mem_singleton.1 hlast)) hkey

end Indexes

/-- Books of one kind, no two with the same key, and their index. -/
structure Shelf (Literal : Type) where
  books : List (Book Literal)
  places : Table Nat
  distinct : (books.map Book.key).Nodup
  indexed : Indexes places books

namespace Shelf

variable {Literal : Type}

def empty : Shelf Literal := ⟨[], .empty, .nil, .empty⟩

/-- The book with exactly this key. -/
def find? (shelf : Shelf Literal) (key : BookKey) : Option (Book Literal) :=
  (shelf.places.find? key).bind (shelf.books[·]?)

def has (shelf : Shelf Literal) (key : BookKey) : Bool := (shelf.places.find? key).isSome

theorem has_eq_false_iff {shelf : Shelf Literal} {key : BookKey} :
    shelf.has key = false ↔ key ∉ shelf.books.map Book.key := by
  rw [has, Option.isSome_eq_false_iff, Option.isNone_iff_eq_none, shelf.indexed.find?_eq_none_iff]

theorem has_eq_isSome_find? {shelf : Shelf Literal} {key : BookKey} :
    shelf.has key = (shelf.find? key).isSome := by
  unfold has find?
  cases hplace : shelf.places.find? key with
  | none => rfl
  | some i =>
    obtain ⟨book, hbook, _⟩ := shelf.indexed.stands key i hplace
    simp [hbook]

/-- What the index leads to is a book, and the one with the key. -/
theorem mem_of_find? {shelf : Shelf Literal} {key : BookKey} {book : Book Literal}
    (h : shelf.find? key = some book) : book ∈ shelf.books ∧ book.key = key := by
  obtain ⟨i, hplace, hbook⟩ := Option.bind_eq_some_iff.1 h
  obtain ⟨other, hother, hkey⟩ := shelf.indexed.stands key i hplace
  cases hbook.symm.trans hother
  exact ⟨List.mem_of_getElem? hbook, hkey⟩

/-- Adds a book after the others, unless its key is taken. -/
def add? (shelf : Shelf Literal) (book : Book Literal) : Option (Shelf Literal) :=
  if h : shelf.has book.key = false then
    some ⟨shelf.books ++ [book], shelf.places.insert book.key shelf.books.length, by
      rw [List.map_append]
      refine List.nodup_append.2 ⟨shelf.distinct, by simp, ?_⟩
      rintro a ha b hb rfl
      simp only [List.map_cons, List.map_nil, List.mem_singleton] at hb
      exact has_eq_false_iff.1 h (hb ▸ ha), shelf.indexed.concat book⟩
  else none

/-- The shelf that holds a list of books, or the first book whose key repeats. -/
def ofBooks (books : List (Book Literal)) : Except BookKey (Shelf Literal) :=
  books.foldlM (fun shelf book =>
    match shelf.add? book with
    | some shelf => .ok shelf
    | none => .error book.key) empty

/-- Adds each book whose key is not taken yet. -/
def addMissing (shelf : Shelf Literal) (books : List (Book Literal)) : Shelf Literal :=
  books.foldl (fun shelf book => (shelf.add? book).getD shelf) shelf

/-- The key that a name stands for in a scope: the book of that scope if there
is one, else the global book. -/
def lookup? (shelf : Shelf Literal) (name : String) (scope : Scope) : Option BookKey :=
  if shelf.has ⟨scope, name⟩ then some ⟨scope, name⟩
  else if shelf.has ⟨.global, name⟩ then some ⟨.global, name⟩
  else none

end Shelf

/-- Every book of a snapshot. -/
structure Catalog where
  networks : Shelf Network
  services : Shelf PortEntry

namespace Catalog

/-- Every address of a family, as a network. -/
def everything (family : Family) : Network :=
  ⟨⟨family, 0, Nat.zero_le _⟩, 0, Nat.zero_le _⟩

def builtinNetworks : List NetworkBook :=
  [("any", [Family.v4, .v6]), ("any4", [.v4]), ("any-ipv4", [.v4]), ("any6", [.v6]),
    ("any-ipv6", [.v6])].map fun (name, families) =>
      ⟨name, .global, families.map fun f => .literal (everything f), []⟩

def builtinServices : List ServiceBook :=
  [("any", none), ("any-tcp", some Protocol.tcp), ("any-udp", some Protocol.udp)].map
    fun (name, protocol) => ⟨name, .global, [.literal ⟨protocol, .all⟩], []⟩

/-- Catalogs books of both kinds. A key that repeats is an error, and repeated
network books are reported before repeated service books. -/
def ofBooks (networks : List NetworkBook) (services : List ServiceBook) (builtins : Bool) :
    Except BookError Catalog := do
  let networks ← (Shelf.ofBooks networks).mapError (.duplicate .network)
  let services ← (Shelf.ofBooks services).mapError (.duplicate .service)
  if builtins then
    return ⟨networks.addMissing builtinNetworks, services.addMissing builtinServices⟩
  else return ⟨networks, services⟩

end Catalog

end Perimeter
